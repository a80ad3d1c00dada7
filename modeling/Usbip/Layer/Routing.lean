import Usbip.Layer.Build

/-! Requests and transfers of a device that is built through the class layer come to the function
that declared the interface or made the endpoint.  What routing reads is kept right by every call
whose interface finds room in the tables and whose endpoint goes to an interface of its function. -/

namespace Usbip

open Lib Layer
open Control (Described)

namespace Layer

/-! ### The invariant -/

/-- The tables name for each interface the function that declared it, and for each endpoint the one
that made it. -/
structure Routed (r : Routes) (declared : List (UInt8 × Nat)) (makers : List Nat) : Prop where
  known : ∀ i f, (i, f) ∈ declared ↔ ∃ o, r.outlines[f]? = some o ∧ i ∈ o.ifnums
  unique : ∀ i f g, (i, f) ∈ declared → (i, g) ∈ declared → f = g
  numbers : ∀ i f, (i, f) ∈ declared → i.toNat < 16 ∧ i.toNat < r.nIfnums
  control : ∀ i f, (i, f) ∈ declared → r.ctrl i.toNat = ctrlSlot f
  setAlt : ∀ i f, (i, f) ∈ declared →
    r.setAltTab i.toNat = if r.declares f DeviceClass.setAlt then setAltSlot f else .none
  silent : ∀ n, (∀ i f, (i, f) ∈ declared → i.toNat ≠ n) →
    r.ctrl n = .none ∧ r.setAltTab n = .none
  made : makers.length = r.eps.length
  mine : ∀ (f : Nat) (o : Outline), r.outlines[f]? = some o → ∀ e, e ∈ o.eps ↔ makers[e]? = some f
  maker : ∀ e f : Nat, makers[e]? = some f → f < r.outlines.length
  owned : ∀ (e f : Nat) (ep : Ep), makers[e]? = some f → r.eps[e]? = some ep → (ep.ifnum, f) ∈ declared
  served : ∀ e f : Nat, makers[e]? = some f →
    r.onOut e = (if r.declares f DeviceClass.onOut then some f else none) ∧
      r.onIso e = if r.declares f DeviceClass.onIso then some f else none
  /-- the first function answers for the device, if the registry held no earlier function -/
  fallback : r.reg = some r.outlines.length →
    r.ctrlDefault = if r.outlines.length = 0 then .none else ctrlSlot 0

namespace Routed

variable {r : Routes} {declared : List (UInt8 × Nat)} {makers : List Nat} {f : Nat} {o : Outline}
  {i : UInt8}

theorem new (header : DeviceHeader) (reg : Option Nat) : Routed (Layer.new header reg).routes [] [] where
  known i f := by simp [routes, Layer.new]
  unique _ _ _ h := absurd h List.not_mem_nil
  numbers _ _ h := absurd h List.not_mem_nil
  control _ _ h := absurd h List.not_mem_nil
  setAlt _ _ h := absurd h List.not_mem_nil
  silent _ _ := ⟨rfl, rfl⟩
  made := rfl
  mine _ _ h := nomatch h
  maker _ _ h := nomatch h
  owned _ _ _ h := nomatch h
  served _ _ h := nomatch h
  fallback _ := rfl

theorem congr {declared' : List (UInt8 × Nat)} (h : Routed r declared makers)
    (hmem : ∀ p, p ∈ declared' ↔ p ∈ declared) : Routed r declared' makers where
  known i f := (hmem _).trans (h.known i f)
  unique i f g hf hg := h.unique i f g ((hmem _).mp hf) ((hmem _).mp hg)
  numbers i f hf := h.numbers i f ((hmem _).mp hf)
  control i f hf := h.control i f ((hmem _).mp hf)
  setAlt i f hf := h.setAlt i f ((hmem _).mp hf)
  silent n hn := h.silent n fun i f hf => hn i f ((hmem _).mpr hf)
  made := h.made
  mine := h.mine
  maker := h.maker
  owned e f ep he hep := (hmem _).mpr (h.owned e f ep he hep)
  served := h.served
  fallback := h.fallback

/-- A function that is in the table keeps its class when another one enters behind it. -/
theorem declares_append (r : Routes) (more : List Outline) (reg : Option Nat) (slot : CtrlSlot)
    (hf : f < r.outlines.length) (callback : DeviceClass → Bool) :
    Routes.declares { r with outlines := r.outlines ++ more, reg, ctrlDefault := slot } f callback =
      r.declares f callback := by
  unfold Routes.declares
  rw [List.getElem?_append_left hf]

theorem addFunction (h : Routed r declared makers) (cls : Option DeviceClass) {n : Nat}
    (hreg : r.reg = some n) : Routed (r.addFunction cls n) declared makers := by
  have hin : ∀ {i f}, (i, f) ∈ declared → f < r.outlines.length := fun {i f} hmem => by
    obtain ⟨o, get, -⟩ := (h.known i f).mp hmem
    exact (List.getElem?_eq_some_iff.mp get).1
  refine ⟨fun i f => ?_, h.unique, h.numbers, h.control, fun i f hmem => ?_, h.silent, h.made,
    fun f o get e => ?_, fun e f hmade => ?_, h.owned, fun e f hmade => ?_, fun hlen => ?_⟩
  · rw [h.known]
    constructor
    · rintro ⟨o, get, hi⟩
      refine ⟨o, ?_, hi⟩
      show (r.outlines ++ [⟨cls, [], []⟩])[f]? = some o
      rw [List.getElem?_append_left (List.getElem?_eq_some_iff.mp get).1, get]
    · rintro ⟨o, get, hi⟩
      rcases getElem?_concat_cases get with ⟨get, -⟩ | ⟨-, rfl⟩
      · exact ⟨o, get, hi⟩
      · cases hi
  · rw [Routes.addFunction, declares_append r _ _ _ (hin hmem)]
    exact h.setAlt i f hmem
  · rcases getElem?_concat_cases get with ⟨get, -⟩ | ⟨rfl, rfl⟩
    · exact h.mine f o get e
    · constructor
      · exact fun he => absurd he List.not_mem_nil
      · exact fun hmade => absurd (h.maker e _ hmade) (Nat.lt_irrefl _)
  · show f < (r.outlines ++ [(⟨cls, [], []⟩ : Outline)]).length
    rw [List.length_append]
    exact Nat.lt_add_right _ (h.maker e f hmade)
  · rw [Routes.addFunction, declares_append r _ _ _ (h.maker e f hmade),
      declares_append r _ _ _ (h.maker e f hmade)]
    exact h.served e f hmade
  · simp only [Routes.addFunction, List.length_append, List.length_singleton, Option.some.injEq]
      at hlen ⊢
    obtain rfl : n = r.outlines.length := by omega
    rw [if_neg (Nat.succ_ne_zero _)]
    split
    · rename_i hzero
      rw [hzero]
    · rename_i hpos
      rw [h.fallback hreg, if_neg hpos]

theorem again (h : Routed r declared makers) (i : UInt8) : Routed (r.again i) declared makers where
  known := h.known
  unique := h.unique
  numbers j f hmem := ⟨(h.numbers j f hmem).1, lt_of_lt_of_le (h.numbers j f hmem).2 (le_max_left _ _)⟩
  control := h.control
  setAlt := h.setAlt
  silent := h.silent
  made := h.made
  mine := h.mine
  maker := h.maker
  owned := h.owned
  served := h.served
  fallback := h.fallback

/-- A function that changes in other things than its class declares the same callbacks. -/
theorem declares_set {outlines : List Outline} (get : outlines[f]? = some o) {o' : Outline}
    (hcls : o'.cls = o.cls) (g : Nat) (callback : DeviceClass → Bool) :
    ((outlines.set f o')[g]?).any (fun o => o.declares callback) =
      (outlines[g]?).any fun o => o.declares callback := by
  rw [List.getElem?_set]
  split
  · subst g
    rw [if_pos (List.getElem?_eq_some_iff.mp get).1, get]
    show o'.cls.any callback = o.cls.any callback
    rw [hcls]
  · rfl

/-- A new interface of a function finds its slots empty, and gets them. -/
theorem declare (h : Routed r declared makers) (get : r.outlines[f]? = some o)
    (hlt : i.toNat < 16) (hfresh : ∀ g, (i, g) ∉ declared) :
    Routed (r.declare f o i) (declared ++ [(i, f)]) makers := by
  have hset : ∀ g callback, (r.declare f o i).declares g callback = r.declares g callback :=
    declares_set get rfl
  have hother : ∀ {j g}, (j, g) ∈ declared → j.toNat ≠ i.toNat := fun {j g} hmem hji =>
    hfresh g (UInt8.toNat_inj.mp hji ▸ hmem)
  have hself : (r.declare f o i).outlines[f]? = some { o with ifnums := o.ifnums ++ [i] } :=
    List.getElem?_set_self (List.getElem?_eq_some_iff.mp get).1
  refine ⟨fun j g => ?_, fun j g g' hmem hmem' => ?_, fun j g hmem => ?_, fun j g hmem => ?_,
    fun j g hmem => ?_, fun n hn => ?_, h.made, fun g p hg e => ?_, fun e g hmade => ?_,
    fun e g ep hmade hep => ?_, fun e g hmade => ?_, fun hreg => ?_⟩
  · rw [List.mem_append, List.mem_singleton, h.known]
    constructor
    · rintro (⟨p, hp, hj⟩ | heq)
      · by_cases hgf : g = f
        · subst g
          cases get.symm.trans hp
          exact ⟨_, hself, List.mem_append_left _ hj⟩
        · exact ⟨p, (List.getElem?_set_ne fun h => hgf h.symm).trans hp, hj⟩
      · cases heq
        exact ⟨_, hself, List.mem_append_right _ (List.mem_singleton_self i)⟩
    · rintro ⟨p, hp, hj⟩
      rcases getElem?_set_cases hp with ⟨rfl, rfl⟩ | ⟨-, hp⟩
      · rcases List.mem_append.mp hj with hj | hj
        · exact .inl ⟨o, get, hj⟩
        · rw [List.mem_singleton.mp hj]
          exact .inr rfl
      · exact .inl ⟨p, hp, hj⟩
  · rcases List.mem_append.mp hmem with hmem | hmem <;>
      rcases List.mem_append.mp hmem' with hmem' | hmem'
    · exact h.unique j g g' hmem hmem'
    · cases List.mem_singleton.mp hmem'
      exact absurd hmem (hfresh g)
    · cases List.mem_singleton.mp hmem
      exact absurd hmem' (hfresh g')
    · cases List.mem_singleton.mp hmem
      cases List.mem_singleton.mp hmem'
      rfl
  · rcases List.mem_append.mp hmem with hmem | hmem
    · exact ((h.again i).numbers j g hmem)
    · cases List.mem_singleton.mp hmem
      exact ⟨hlt, lt_of_lt_of_le (Nat.lt_succ_self _) (le_max_right _ _)⟩
  · rcases List.mem_append.mp hmem with hmem | hmem
    · exact (if_neg (hother hmem)).trans (h.control j g hmem)
    · cases List.mem_singleton.mp hmem
      exact if_pos rfl
  · rw [hset]
    rcases List.mem_append.mp hmem with hmem | hmem
    · rw [← h.setAlt j g hmem]
      simp only [Routes.declare]
      split
      · exact if_neg (hother hmem)
      · rfl
    · cases List.mem_singleton.mp hmem
      have hdeclares : r.declares f DeviceClass.setAlt = o.declares DeviceClass.setAlt := by
        rw [Routes.declares, get]
        rfl
      rw [hdeclares]
      simp only [Routes.declare]
      split
      · exact if_pos rfl
      · exact (h.silent i.toNat fun j g hj => hother hj).2
  · have hni : n ≠ i.toNat := fun hni =>
      hn i f (List.mem_append_right _ (List.mem_singleton_self _)) hni.symm
    obtain ⟨hctrl, halt⟩ := h.silent n fun j g hj => hn j g (List.mem_append_left _ hj)
    refine ⟨(if_neg hni).trans hctrl, ?_⟩
    simp only [Routes.declare]
    split
    · exact (if_neg hni).trans halt
    · exact halt
  · rcases getElem?_set_cases hg with ⟨rfl, rfl⟩ | ⟨-, hg⟩
    · exact h.mine g o get e
    · exact h.mine g p hg e
  · show g < (r.outlines.set f _).length
    rw [List.length_set]
    exact h.maker e g hmade
  · exact List.mem_append_left _ (h.owned e g ep hmade hep)
  · rw [hset, hset]
    exact h.served e g hmade
  · simp only [Routes.declare, Routes.again, List.length_set] at hreg ⊢
    exact h.fallback hreg

/-- A new endpoint of a function, on an interface of its own. -/
theorem attach (h : Routed r declared makers) (get : r.outlines[f]? = some o) {ep : Ep}
    (hown : (ep.ifnum, f) ∈ declared) : Routed (r.attach f o ep) declared (makers ++ [f]) := by
  have hset : ∀ g callback, (r.attach f o ep).declares g callback = r.declares g callback :=
    declares_set get rfl
  have hself : (r.attach f o ep).outlines[f]? = some { o with eps := o.eps ++ [r.eps.length] } :=
    List.getElem?_set_self (List.getElem?_eq_some_iff.mp get).1
  have hdeclares : ∀ callback, r.declares f callback = o.declares callback := fun callback => by
    rw [Routes.declares, get]
    rfl
  have hmakers : ∀ {e g}, (makers ++ [f])[e]? = some g →
      makers[e]? = some g ∧ e < r.eps.length ∨ e = r.eps.length ∧ g = f := fun {e g} hmade =>
    h.made ▸ getElem?_concat_cases hmade
  have hlast : (makers ++ [f])[r.eps.length]? = some f := by
    rw [← h.made]
    exact List.getElem?_concat_length
  have hkeep : ∀ {e g}, makers[e]? = some g → (makers ++ [f])[e]? = some g := fun {e g} hmade => by
    rw [List.getElem?_append_left (List.getElem?_eq_some_iff.mp hmade).1, hmade]
  refine ⟨fun j g => ?_, h.unique, h.numbers, h.control, fun j g hmem => ?_, h.silent, ?_,
    fun g p hg e => ?_, fun e g hmade => ?_, fun e g ep' hmade hep => ?_, fun e g hmade => ?_,
    fun hreg => ?_⟩
  · rw [h.known]
    constructor
    · rintro ⟨p, hp, hj⟩
      by_cases hgf : g = f
      · subst g
        cases get.symm.trans hp
        exact ⟨_, hself, hj⟩
      · exact ⟨p, (List.getElem?_set_ne fun h => hgf h.symm).trans hp, hj⟩
    · rintro ⟨p, hp, hj⟩
      rcases getElem?_set_cases hp with ⟨rfl, rfl⟩ | ⟨-, hp⟩
      · exact ⟨o, get, hj⟩
      · exact ⟨p, hp, hj⟩
  · rw [hset]
    exact h.setAlt j g hmem
  · show (makers ++ [f]).length = (r.eps ++ [ep]).length
    rw [List.length_append, List.length_append, h.made]
    rfl
  · rcases getElem?_set_cases hg with ⟨rfl, rfl⟩ | ⟨hne, hg⟩
    · rw [List.mem_append, List.mem_singleton, h.mine g o get e]
      constructor
      · rintro (hmade | rfl)
        · exact hkeep hmade
        · exact hlast
      · intro hmade
        rcases hmakers hmade with ⟨hmade, -⟩ | ⟨he, -⟩
        · exact .inl hmade
        · exact .inr he
    · rw [h.mine g p hg e]
      constructor
      · exact hkeep
      · intro hmade
        rcases hmakers hmade with ⟨hmade, -⟩ | ⟨-, hgf⟩
        · exact hmade
        · exact absurd hgf hne
  · show g < (r.outlines.set f _).length
    rw [List.length_set]
    rcases hmakers hmade with ⟨hmade, -⟩ | ⟨-, rfl⟩
    · exact h.maker e g hmade
    · exact (List.getElem?_eq_some_iff.mp get).1
  · rcases hmakers hmade with ⟨hmade, hlt⟩ | ⟨rfl, rfl⟩
    · exact h.owned e g ep' hmade ((List.getElem?_append_left hlt).symm.trans hep)
    · have hep : (r.eps ++ [ep])[r.eps.length]? = some ep' := hep
      rw [List.getElem?_concat_length, Option.some.injEq] at hep
      exact hep ▸ hown
  · rw [hset, hset]
    rcases hmakers hmade with ⟨hmade, hlt⟩ | ⟨rfl, rfl⟩
    · obtain ⟨hout, hiso⟩ := h.served e g hmade
      exact ⟨(if_neg (Nat.ne_of_lt hlt)).trans hout, (if_neg (Nat.ne_of_lt hlt)).trans hiso⟩
    · rw [hdeclares, hdeclares]
      exact ⟨if_pos rfl, if_pos rfl⟩
  · simp only [Routes.attach, List.length_set] at hreg ⊢
    exact h.fallback hreg

end Routed

end Layer

/-- The handler that SET_INTERFACE calls. -/
def Device.setAltFor (dev : Device) (ifnum : UInt8) : Option CtrlSlot :=
  if ifnum.toNat < 16 ∧ (dev.setAltTab ifnum.toNat).cb.isSome then some (dev.setAltTab ifnum.toNat)
  else none

namespace LayerTrace

/-- Function `f` has room for one more interface. -/
def Room (t : LayerTrace) (f : Nat) : Prop :=
  (t.layer.funcs[f]?).all fun func => func.ifaces.length < ifacesCap

/-- An interface descriptor repeats a number of its own function, or brings a new number that the
tables have room for; an endpoint goes to an interface of its own function. -/
structure Proper (t : LayerTrace) (f : Nat) (desc : List UInt8) : Prop where
  interface : byteAt desc 1 = usbDtInterface → (byteAt desc 2, f) ∈ t.declared ∨
    (byteAt desc 2).toNat < 16 ∧ t.Room f ∧ ∀ p ∈ t.declared, p.1 ≠ byteAt desc 2
  endpoint : byteAt desc 1 = usbDtEndpoint → ∃ s ∈ t.layer.dev.cur, (s.1, f) ∈ t.declared

/-- What a call has to meet. `usbip_function_add_interface` picks a number that is new. -/
def Admits (t : LayerTrace) : LayerAct → Prop
  | .addInterface f _ _ _ => t.layer.dev.nIfnums < 16 ∧ t.Room f
  | .addDescriptor f desc | .addEndpoint f desc => t.Proper f desc
  | _ => True

instance (t : LayerTrace) (f : Nat) : Decidable (t.Room f) :=
  inferInstanceAs (Decidable (_ = true))

instance (t : LayerTrace) (f : Nat) (desc : List UInt8) : Decidable (t.Proper f desc) :=
  decidable_of_iff (_ ∧ _) ⟨fun h => ⟨h.1, h.2⟩, fun h => ⟨h.interface, h.endpoint⟩⟩

instance (t : LayerTrace) : ∀ act, Decidable (t.Admits act)
  | .addInterface _ _ _ _ => inferInstanceAs (Decidable (_ ∧ _))
  | .addDescriptor _ _ | .addEndpoint _ _ => inferInstanceAs (Decidable (Proper ..))
  | .addFunction _ | .onControl _ | .addAltsetting _ _ _ | .associate _ _ _ _ _ _
  | .reserveEndpoint _ _ | .setString _ _ _ | .enableMsos _ _ _ => isTrue trivial

/-- The tables of the layer and those of the core are right. -/
structure Ordered (t : LayerTrace) : Prop where
  routed : Routed t.layer.routes t.declared t.makers
  tables : t.layer.dev.Tables

variable {t t' : LayerTrace} {f : Nat} {desc : List UInt8}

theorem Ordered.new (header : DeviceHeader) (reg : Option Nat) : (new header reg).Ordered where
  routed := .new header reg
  tables := .create header

/-- A change that neither routing nor the allocation of endpoint numbers reads. -/
theorem Ordered.congr (h : t.Ordered) {layer : Layer} (hroutes : layer.routes = t.layer.routes)
    (htables : layer.dev.Tables) : Ordered { t with layer } where
  routed := hroutes ▸ h.routed
  tables := htables

theorem Room.outline {func : Func} (h : t.Room f) (get : t.layer.funcs[f]? = some func) :
    func.outline.ifnums.length < ifacesCap := by
  rw [Room, get] at h
  rw [Func.outline, List.length_map]
  exact of_decide_eq_true h

/-- A descriptor that a function adds goes into the tables as its own. -/
theorem Ordered.add (h : t.Ordered) (hproper : t.Proper f desc) : (t.add f desc).Ordered := by
  have hstep := t.layer.addDescriptor_step f desc
  unfold LayerTrace.add
  generalize t.layer.functionAddDescriptor f desc = r at hstep
  cases hstep with
  | refused _ failed =>
    dsimp only
    rw [if_neg failed]
    exact h
  | @endpoint func number taken get kind alloc =>
    obtain ⟨⟨i, alt⟩, hcur, hown⟩ := hproper.endpoint kind
    have howner : t.layer.dev.owner = i := by
      rw [Device.owner, hcur]
      rfl
    have hne : byteAt desc 1 ≠ usbDtInterface := fun hk => absurd (kind.symm.trans hk) (by decide)
    dsimp only
    rw [if_pos rfl, if_neg hne, if_pos kind]
    refine ⟨?_, ?_⟩
    · show Routed (t.layer.attach f func desc number).routes _ _
      rw [routes_attach]
      refine h.routed.attach (routes_outlines get) ?_
      rw [howner]
      exact hown
    · have htake := (AddTrace.mayTake_of_allocFor alloc).1
      exact (h.tables.append desc).attach (htake.append desc) rfl
  | @interface func taken get kind =>
    have hne : byteAt desc 1 ≠ usbDtEndpoint := fun hk => absurd (kind.symm.trans hk) (by decide)
    dsimp only
    rw [if_pos rfl, if_pos kind, if_neg hne]
    refine ⟨?_, tables_enter h.tables f func desc⟩
    have hget := routes_outlines get
    have hknown : (byteAt desc 2, f) ∈ t.declared ↔ byteAt desc 2 ∈ func.outline.ifnums := by
      rw [h.routed.known]
      constructor
      · rintro ⟨o, hget', hi⟩
        cases hget.symm.trans hget'
        exact hi
      · exact fun hi => ⟨_, hget, hi⟩
    show Routed (t.layer.enter f func desc).routes _ _
    rcases hproper.interface kind with hold | ⟨hlt, hroom, hfresh⟩
    · rw [routes_enter_again get (hknown.mp hold)]
      exact (h.routed.again _).congr fun p => by
        rw [List.mem_append, List.mem_singleton]
        exact ⟨fun hp => hp.elim id (· ▸ hold), .inl⟩
    · rw [routes_enter_declare (fun hi => hfresh _ (hknown.mpr hi) rfl) (hroom.outline get) hlt]
      exact h.routed.declare hget hlt fun g hmem => hfresh _ hmem rfl
  | other taken not_interface not_endpoint =>
    dsimp only
    rw [if_pos rfl, if_neg not_interface, if_neg not_endpoint]
    exact h.congr rfl (h.tables.append desc)

theorem add_layer (t : LayerTrace) (f : Nat) (desc : List UInt8) :
    (t.add f desc).layer = (t.layer.functionAddDescriptor f desc).1 := by
  unfold add
  dsimp only
  split <;> rfl

theorem add_eq (t : LayerTrace) (f : Nat) (desc : List UInt8) :
    { t.add f desc with layer := (t.layer.functionAddDescriptor f desc).1 } = t.add f desc := by
  rw [← add_layer]

theorem functionAddEndpoint_layer (l : Layer) (f : Nat) (desc : List UInt8) :
    (l.functionAddEndpoint f desc).1 = (l.functionAddDescriptor f desc).1 := by
  unfold functionAddEndpoint
  dsimp only
  split
  · rfl
  · split <;> rfl

/-- The number that `usbip_function_add_interface` picks is in use nowhere. -/
theorem Ordered.proper_next (h : t.Ordered) (hlt : t.layer.dev.nIfnums < 16) (hroom : t.Room f)
    (cls sub proto : UInt8) : t.Proper f (t.layer.nextInterface cls sub proto) where
  interface _ := by
    have hnum : (byteAt (t.layer.nextInterface cls sub proto) 2).toNat = t.layer.dev.nIfnums := by
      show (t.layer.dev.nIfnums.toUInt8).toNat = _
      rw [UInt8.toNat_ofNat']
      omega
    refine .inr ⟨by omega, hroom, fun p hp heq => ?_⟩
    have hlt : p.1.toNat < t.layer.dev.nIfnums := (h.routed.numbers p.1 p.2 hp).2
    rw [heq] at hlt
    omega
  endpoint kind := absurd kind (by decide : usbDtInterface ≠ usbDtEndpoint)

/-- An alternate setting has the number of an interface that its function has. -/
theorem Ordered.proper_setting (h : t.Ordered) {i : Nat} {iface : Iface}
    (get : t.layer.iface f i = some iface) (alt : UInt8) : t.Proper f (iface.setting alt) where
  interface _ := by
    obtain ⟨func, hfunc, hiface⟩ := Option.bind_eq_some_iff.mp get
    refine .inl ((h.routed.known _ _).mpr ⟨_, routes_outlines hfunc, ?_⟩)
    exact List.mem_map.mpr ⟨iface, List.mem_of_getElem? hiface, rfl⟩
  endpoint kind := absurd kind (by decide : usbDtInterface ≠ usbDtEndpoint)

theorem Ordered.addFunction (h : t.Ordered) (cls : Option DeviceClass) :
    Ordered { t with layer := (t.layer.addFunction cls).1 } := by
  have htables := tables_addFunction h.tables cls
  rcases routes_addFunction t.layer cls with hsame | ⟨n, hreg, hadd⟩
  · exact h.congr hsame htables
  · exact ⟨hadd ▸ h.routed.addFunction cls hreg, htables⟩

/-- A call that has what it needs keeps the tables right. -/
theorem Ordered.step (h : t.Ordered) {act : LayerAct} (hact : t.Admits act)
    (hs : t.step act = some t') : t'.Ordered := by
  obtain ⟨layer, happly, rfl⟩ := Option.map_eq_some_iff.mp hs
  cases act with
  | addFunction cls =>
    cases happly
    exact h.addFunction cls
  | onControl f =>
    cases happly
    exact h.congr (routes_functionOnControl t.layer f) h.tables
  | addInterface f cls sub proto =>
    obtain ⟨⟨layer', i⟩, hsome, rfl⟩ := Option.map_eq_some_iff.mp happly
    obtain ⟨hroutes, hdev⟩ := functionAddInterface_eq_some hsome
    have hadd := h.add (h.proper_next hact.1 hact.2 cls sub proto)
    refine hadd.congr ?_ ?_
    · rw [add_layer, hroutes]
    · rw [hdev, ← add_layer]
      exact hadd.tables
  | addAltsetting f i alt =>
    cases happly
    cases get : t.layer.iface f i with
    | none =>
      simp only [LayerAct.adds, get, Option.map_none, interfaceAddAltsetting]
      exact h
    | some iface =>
      simp only [LayerAct.adds, get, Option.map_some, interfaceAddAltsetting, add_eq]
      exact h.add (h.proper_setting get alt)
  | addDescriptor f desc =>
    cases happly
    simp only [LayerAct.adds, add_eq]
    exact h.add hact
  | addEndpoint f desc =>
    cases happly
    simp only [LayerAct.adds, functionAddEndpoint_layer, add_eq]
    exact h.add hact
  | associate f count cls sub proto iFunction =>
    cases happly
    simp only [LayerAct.adds, functionAssociate, add_eq]
    exact h.add ⟨fun kind => absurd kind (by decide : usbDtInterfaceAssociation ≠ usbDtInterface),
      fun kind => absurd kind (by decide : usbDtInterfaceAssociation ≠ usbDtEndpoint)⟩
  | reserveEndpoint f wantAddr =>
    cases happly
    exact h.congr (routes_functionReserveEndpoint t.layer f wantAddr)
      (tables_functionReserveEndpoint h.tables f wantAddr)
  | setString f i istr =>
    cases happly
    exact h.congr (routes_interfaceSetString t.layer f i istr)
      (tables_interfaceSetString h.tables f i istr)
  | enableMsos f compatible guid =>
    cases happly
    exact h.congr (routes_functionEnableMsos t.layer f compatible guid)
      (tables_functionEnableMsos h.tables f compatible guid)

/-! ### Delivery -/

/-- Endpoint `e` was made by function `f`, and has the callbacks of its class and no others. -/
structure Serves (t : LayerTrace) (f : Nat) (e : EpId) : Prop where
  made : t.makers[e]? = some f
  onOut : t.layer.onOut e = if t.layer.routes.declares f DeviceClass.onOut then some f else none
  onIso : t.layer.onIso e = if t.layer.routes.declares f DeviceClass.onIso then some f else none

/-- Every request and every transfer comes to the function that declared the interface or made the
endpoint, and what is no function's comes to the first one. -/
structure Delivers (t : LayerTrace) : Prop where
  alone : ∀ i f g, (i, f) ∈ t.declared → (i, g) ∈ t.declared → f = g
  control : ∀ i f, (i, f) ∈ t.declared → ∀ (d : Described) (setup : Setup), d.dev = t.layer.dev →
    setup.recip = 1 → lsb setup.wIndex = i → d.route setup = some (ctrlSlot f)
  setAlt : ∀ i f, (i, f) ∈ t.declared → t.layer.dev.setAltFor i =
    if t.layer.routes.declares f DeviceClass.setAlt then some (setAltSlot f) else none
  pipe : ∀ n d e, t.layer.dev.epMap n d = some e → ∃ f, t.Serves f e
  reached : ∀ (e f : Nat) (ep : Ep), t.makers[e]? = some f → t.layer.dev.eps[e]? = some ep →
    ∃ e', t.layer.dev.epMap ep.number ep.dir = some e' ∧ t.Serves f e'
  own : ∀ f addr e, t.layer.functionEndpoint f addr = some e → t.Serves f e
  fallback : t.layer.reg = some t.layer.funcs.length → ∀ (d : Described) (setup : Setup),
    d.dev = t.layer.dev → (setup.recip = 1 → ∀ f, (lsb setup.wIndex, f) ∉ t.declared) →
      d.route setup = if t.layer.funcs.length = 0 then none else some (ctrlSlot 0)

theorem Ordered.serves (h : t.Ordered) {e : EpId} (hmade : t.makers[e]? = some f) : t.Serves f e :=
  ⟨hmade, (h.routed.served e f hmade).1, (h.routed.served e f hmade).2⟩

theorem Ordered.delivers (h : t.Ordered) : t.Delivers := by
  refine ⟨h.routed.unique, fun i f hmem d setup hdev hrecip hindex => ?_, fun i f hmem => ?_,
    fun n d e hmap => ?_, fun e f ep hmade hep => ?_, fun f addr e hfind => ?_,
    fun hreg d setup hdev hother => ?_⟩
  · have hctrl : t.layer.dev.ctrl i.toNat = ctrlSlot f := h.routed.control i f hmem
    rw [Described.route, hdev, hindex, hctrl]
    exact if_pos ⟨hrecip, (h.routed.numbers i f hmem).1, rfl⟩
  · have halt : t.layer.dev.setAltTab i.toNat = _ := h.routed.setAlt i f hmem
    rw [Device.setAltFor, halt]
    have hlt := (h.routed.numbers i f hmem).1
    split
    · exact if_pos ⟨hlt, rfl⟩
    · exact if_neg fun hsome => absurd hsome.2 (by decide)
  · obtain ⟨ep, hep, -, -⟩ := h.tables.slot hmap
    have hlt : e < t.makers.length := h.routed.made ▸ (List.getElem?_eq_some_iff.mp hep).1
    exact ⟨t.makers[e], h.serves (List.getElem?_eq_getElem hlt)⟩
  · obtain ⟨other, hheld, hifnum⟩ := h.tables.holder ep (List.mem_of_getElem? hep)
    obtain ⟨e', hmap, hother⟩ := Option.bind_eq_some_iff.mp hheld
    have hlt : e' < t.makers.length := h.routed.made ▸ (List.getElem?_eq_some_iff.mp hother).1
    have hmade' : t.makers[e']? = some t.makers[e'] := List.getElem?_eq_getElem hlt
    have hown := h.routed.owned e' _ other hmade' hother
    rw [hifnum] at hown
    have hsame := h.routed.unique _ _ _ hown (h.routed.owned e f ep hmade hep)
    exact ⟨e', hmap, h.serves (hsame ▸ hmade')⟩
  · obtain ⟨func, hfunc, hfound⟩ := Option.bind_eq_some_iff.mp hfind
    exact h.serves ((h.routed.mine f _ (routes_outlines hfunc) e).mp (List.mem_of_find?_eq_some hfound))
  · have hlen : t.layer.routes.outlines.length = t.layer.funcs.length := List.length_map ..
    have hdefault : t.layer.dev.ctrlDefault =
        if t.layer.routes.outlines.length = 0 then .none else ctrlSlot 0 :=
      h.routed.fallback (by rw [hlen]; exact hreg)
    have hslot : ¬(setup.recip = 1 ∧ (lsb setup.wIndex).toNat < 16 ∧
        (t.layer.dev.ctrl (lsb setup.wIndex).toNat).cb.isSome) := by
      rintro ⟨hrecip, -, hsome⟩
      have hnone : t.layer.dev.ctrl (lsb setup.wIndex).toNat = .none :=
        (h.routed.silent _ fun i f hmem heq =>
          hother hrecip f (by rw [← UInt8.toNat_inj.mp heq]; exact hmem)).1
      rw [hnone] at hsome
      cases hsome
    rw [Described.route, hdev, if_neg hslot, hdefault, hlen]
    split <;> rfl

/-- A device built through the class layer, with interfaces that find room in the tables and
endpoints that go to interfaces of their own function, delivers what comes to it. -/
theorem layer_delivers (header : DeviceHeader) {reg : Option Nat} {acts : List LayerAct}
    (hguard : Guarded step Admits (new header reg) acts)
    (h : exec step (new header reg) acts = some t) : t.Delivers := by
  have hordered : t.Ordered := guarded_invariant (I := Ordered)
    (fun _ _ _ hs hact hstep => hs.step hact hstep) (.new header reg) hguard h
  exact hordered.delivers

/-- A function with two alternate settings and one with an interface of its own, whose endpoint is
moved off the address that it asks for. -/
def compositeRun : List LayerAct :=
  [.addFunction (some ⟨true, true, false, false⟩), .addInterface 0 0xff 0 0,
    .addEndpoint 0 (endpointDesc 0x01), .addFunction (some ⟨true, false, true, false⟩),
    .addInterface 1 0xff 0 0, .addEndpoint 1 (endpointDesc 0x01), .addAltsetting 0 0 1,
    .addEndpoint 0 (endpointDesc 0x01)]

theorem layer_delivers_compositeRun : ∃ t,
    exec step (new ⟨0, 0, 0, 0, 0, 0, 0, 0, 0⟩ (some 0)) compositeRun = some t ∧ t.Delivers := by
  obtain ⟨t, ht⟩ := Option.isSome_iff_exists.mp
    (show (exec step (new ⟨0, 0, 0, 0, 0, 0, 0, 0, 0⟩ (some 0)) compositeRun).isSome = true by
      decide +kernel)
  exact ⟨t, ht, layer_delivers _ (by decide +kernel) ht⟩

end LayerTrace

end Usbip
