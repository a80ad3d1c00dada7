import Usbip.Lib.Keyed
import Usbip.Libusbk.Lists

/-! `LstK_Sync`: a device list is brought up to date with another one. -/

namespace Usbip.Libusbk

open Lib

/-- What `LstK_Sync` writes to an element of the master list, from what the slave list has. -/
def DevInfo.mark (found : Option DevInfo) (pub : DevInfo) : DevInfo :=
  match found with
  | none => { pub with syncFlags := klstSyncFlagRemoved, connected := 0 }
  | some other =>
    if other.connected ≠ pub.connected then
      { pub with syncFlags := klstSyncFlagConnectChange, connected := other.connected }
    else { pub with syncFlags := klstSyncFlagUnchanged }

/-- The copy of an element of the slave list. -/
def DevInfo.added (pub : DevInfo) : DevInfo := { pub with syncFlags := klstSyncFlagAdded }

namespace DevLists

def pubOf (s : DevLists) (el : Option ElId) : Option (Option DevInfo) :=
  match el with
  | none => some none
  | some el => (s.els el).map fun x => some x.pub

/-- The first loop of `LstK_Sync`, from the element `el` on. -/
def markLoop (slave : ListId) : Nat → Option ElId → DevLists → Option DevLists
  | 0, _, _ => none
  | _ + 1, none, s => some s
  | fuel + 1, some el, s => do
    let x ← s.els el
    let found ← s.lkListFindId slave x.pub.deviceId
    let other ← s.pubOf found
    let s ← s.setEl el fun y => { y with pub := x.pub.mark other }
    let x ← s.els el
    markLoop slave fuel x.next s

/-- Appends a copy of an element to the master list; `false` when `calloc` fails. -/
def addCopy (calloc : DevLists → Option ElId) (master : ListId) (pub : DevInfo) (s : DevLists) :
    Option (DevLists × Bool) :=
  match calloc s with
  | none => some (s, false)
  | some copy =>
    ((s.alloc copy ⟨pub.added, none, none⟩).lkListAppend master copy).map fun s => (s, true)

/-- The second loop. -/
def addLoop (calloc : DevLists → Option ElId) (master : ListId) :
    Nat → Option ElId → DevLists → Option (DevLists × Bool)
  | 0, _, _ => none
  | _ + 1, none, s => some (s, true)
  | fuel + 1, some el, s => do
    let x ← s.els el
    let found ← s.lkListFindId master x.pub.deviceId
    if found ≠ none then addLoop calloc master fuel x.next s
    else do
      let (s, ok) ← addCopy calloc master x.pub s
      if !ok then return (s, false)
      let x ← s.els el
      addLoop calloc master fuel x.next s

/-- The third loop. -/
def dropLoop (master : ListId) : Nat → Option ElId → DevLists → Option DevLists
  | 0, _, _ => none
  | _ + 1, none, s => some s
  | fuel + 1, some el, s => do
    let x ← s.els el
    if x.pub.syncFlags = klstSyncFlagRemoved then do
      let (s, ok) ← s.lkListUnlink master el
      dropLoop master fuel x.next (if ok then s.lkElFree el else s)
    else dropLoop master fuel x.next s

/-- `SyncFlags` asks for the gone elements to be dropped. -/
def Drops (syncFlags : UInt32) : Prop := syncFlags &&& klstSyncFlagRemoved ≠ 0

instance (syncFlags : UInt32) : Decidable (Drops syncFlags) :=
  inferInstanceAs (Decidable (syncFlags &&& klstSyncFlagRemoved ≠ 0))

/-- With `KLST_SYNC_FLAG_REMOVED` the third loop runs. -/
def dropGone (s : DevLists) (master : ListId) (syncFlags : UInt32) : Option DevLists :=
  if Drops syncFlags then do
    let l ← s.lists master
    dropLoop master (s.top + 1) l.head s
  else some s

/-- `LstK_Sync` with a slave list; `calloc` says where memory for an element is found. -/
def lstKSync (calloc : DevLists → Option ElId) (s : DevLists) (master : Option ListId)
    (slave : ListId) (syncFlags : UInt32) : Option (DevLists × Bool) :=
  match master with
  | none => some (s, false)
  | some master => do
    let l ← s.lists master
    let s ← markLoop slave (s.top + 1) l.head s
    let l ← s.lists slave
    let (s, ok) ← addLoop calloc master (s.top + 1) l.head s
    if !ok then return (s, false)
    let s ← s.dropGone master syncFlags
    let s ← s.setList master fun l => { l with cursor := none, started := false }
    return (s, true)

/-! ### The loops -/

variable {s : DevLists} {c : ListId → List (ElId × DevInfo)} {master slave : ListId} {l : Klst}

/-- What a list has for an identity. -/
abbrev havingId (items : List (ElId × DevInfo)) (deviceId : List UInt8) : Option DevInfo :=
  lookup DevInfo.deviceId (items.map Prod.snd) deviceId

theorem havingId_eq_none {items : List (ElId × DevInfo)} {deviceId : List UInt8} :
    havingId items deviceId = none ↔ deviceId ∉ items.map fun x => x.2.deviceId := by
  rw [havingId, lookup_eq_none, List.map_map]
  rfl

/-- An element of the master list, marked. -/
def marked (new : List (ElId × DevInfo)) (x : ElId × DevInfo) : ElId × DevInfo :=
  (x.1, x.2.mark (havingId new x.2.deviceId))

theorem find?_pub (items : List (ElId × DevInfo)) (deviceId : List UInt8) :
    (items.find? fun y => y.2.deviceId = deviceId).map Prod.snd = havingId items deviceId := by
  rw [havingId, lookup, List.find?_map]
  rfl

theorem pubOf_find (hs : s.Formed c) (hl : s.lists slave = some l) (deviceId : List UInt8) :
    ∃ found, s.lkListFindId slave deviceId = some found ∧
      s.pubOf found = some (havingId (c slave) deviceId) := by
  refine ⟨_, lkListFindId_spec hs hl deviceId, ?_⟩
  rw [← find?_pub]
  cases hfind : (c slave).find? fun y => y.2.deviceId = deviceId with
  | none => rfl
  | some y =>
    obtain ⟨x, hx, -, hpub⟩ :=
      (hs.holds slave l hl).owner_of_mem (List.mem_of_find?_eq_some hfind)
    rw [Option.map_some, pubOf, hx, Option.map_some, hpub]
    rfl

/-- The head of what is left of a list is where a loop over it goes on. -/
theorem Holds.rest {id : ListId} {done rest : List (ElId × DevInfo)} {el : ElId} {v : DevInfo}
    (h : s.Holds id l (done ++ (el, v) :: rest)) : ∃ x, s.els el = some x ∧ x.pub = v ∧
      x.owner = some id ∧ x.next = (rest.map Prod.fst).head? := by
  have hmem : (el, v) ∈ done ++ (el, v) :: rest := List.mem_append_right _ List.mem_cons_self
  obtain ⟨x, hx, hown, hpub⟩ := h.owner_of_mem hmem
  have hnext := h.fifo.chain.next_eq
  rw [links_eq hx] at hnext
  exact ⟨x, hx, hpub, hown, congrArg Cell.next (Option.some.inj hnext)⟩

@[simp] theorem mark_deviceId (found : Option DevInfo) (pub : DevInfo) :
    (pub.mark found).deviceId = pub.deviceId := by
  cases found with
  | none => rfl
  | some other =>
    rw [DevInfo.mark]
    split
    · rfl
    · rfl

@[simp] theorem added_deviceId (pub : DevInfo) : pub.added.deviceId = pub.deviceId := rfl

/-- What the list has for an identity does not depend on an element with another one. -/
theorem havingId_of_ne {done rest : List (ElId × DevInfo)} {el : ElId} {v w : DevInfo}
    {deviceId : List UInt8} (hv : v.deviceId ≠ deviceId) (hw : w.deviceId ≠ deviceId) :
    havingId (done ++ (el, w) :: rest) deviceId = havingId (done ++ (el, v) :: rest) deviceId := by
  rw [havingId, havingId, List.map_append, List.map_append, List.map_cons, List.map_cons]
  exact lookup_of_ne hw hv

/-- The slave list may be the master list itself: then what the loop looks for is the element that
it is about to write. -/
theorem markLoop_spec {new done rest : List (ElId × DevInfo)} {fuel : Nat} (hs : s.Formed c)
    (hl : ∃ l, s.lists master = some l) (hl' : ∃ l, s.lists slave = some l)
    (hc : c master = done ++ rest) (hids : ((c master).map fun x => x.2.deviceId).Nodup)
    (hnew : ∀ x ∈ rest, havingId (c slave) x.2.deviceId = havingId new x.2.deviceId)
    (hfuel : rest.length < fuel) :
    ∃ t, markLoop slave fuel ((rest.map Prod.fst).head?) s = some t ∧
      t.Formed (Function.update c master (done ++ rest.map (marked new))) ∧
      t.lists = s.lists ∧ t.top = s.top := by
  induction rest generalizing s c done fuel with
  | nil =>
    cases fuel with
    | zero => omega
    | succ fuel =>
      refine ⟨s, rfl, ?_, rfl, rfl⟩
      rw [List.map_nil, ← hc, Function.update_eq_self]
      exact hs
  | cons x rest ih =>
    obtain ⟨el, v⟩ := x
    obtain ⟨l, hl⟩ := hl
    obtain ⟨l', hl'⟩ := hl'
    obtain ⟨hfirst, hlater⟩ := List.forall_mem_cons.mp hnew
    cases fuel with
    | zero => omega
    | succ fuel =>
      rw [List.length_cons] at hfuel
      have hitems := hs.holds master l hl
      rw [hc] at hitems
      obtain ⟨x, hx, rfl, -, -⟩ := hitems.rest
      obtain ⟨found, hfound, hpub⟩ := pubOf_find hs hl' x.pub.deviceId
      rw [hfirst] at hpub
      obtain ⟨m, hm⟩ : ∃ m, m = x.pub.mark (havingId new x.pub.deviceId) := ⟨_, rfl⟩
      have hid : m.deviceId = x.pub.deviceId := hm ▸ mark_deviceId _ _
      obtain ⟨t, hset, ht, hlists, htop⟩ := setPub_spec hs hl hc m
      have hlt := hlists ▸ hl
      have hitems' := ht.holds master l hlt
      rw [Function.update_self] at hitems'
      obtain ⟨y, hy, -, -, hnext⟩ := hitems'.rest
      have hsplit : Function.update c master (done ++ (el, m) :: rest) master =
          (done ++ [(el, m)]) ++ rest := by
        rw [Function.update_self, List.append_assoc]
        rfl
      have hids' : ((Function.update c master (done ++ (el, m) :: rest) master).map
          fun x => x.2.deviceId).Nodup := by
        rw [hc, List.map_append, List.map_cons] at hids
        rw [Function.update_self, List.map_append, List.map_cons, hid]
        exact hids
      have hlater' : ∀ z ∈ rest, havingId (Function.update c master (done ++ (el, m) :: rest) slave)
          z.2.deviceId = havingId new z.2.deviceId := by
        intro z hz
        rw [← hlater z hz]
        by_cases hself : slave = master
        · subst hself
          rw [hc, List.map_append, List.map_cons] at hids
          have hne : x.pub.deviceId ≠ z.2.deviceId := fun h =>
            (List.nodup_cons.mp (List.nodup_append.mp hids).2.1).1
              (List.mem_map.mpr ⟨z, hz, h.symm⟩)
          rw [Function.update_self, hc]
          exact havingId_of_ne hne (hid ▸ hne)
        · rw [Function.update_of_ne hself]
      obtain ⟨u, hu, hformed, hlists', htop'⟩ :=
        ih ht ⟨l, hlt⟩ ⟨l', hlists ▸ hl'⟩ hsplit hids' hlater' (show rest.length < fuel by omega)
      rw [Function.update_idem, List.append_assoc, hm] at hformed
      refine ⟨u, ?_, hformed, hlists'.trans hlists, htop'.trans htop⟩
      rw [List.map_cons, List.head?_cons, markLoop]
      simp only [hx, hfound, hpub, Option.bind_eq_bind, Option.bind_some, ← hm, hset, hy, hnext]
      exact hu

theorem havingId_concat {items : List (ElId × DevInfo)} {el : ElId} {v : DevInfo}
    {deviceId : List UInt8} (hne : v.deviceId ≠ deviceId) :
    havingId (items ++ [(el, v)]) deviceId = havingId items deviceId := by
  rw [havingId, List.map_append]
  exact lookup_concat_of_ne hne

theorem addCopy_spec {calloc : DevLists → Option ElId}
    (hcalloc : ∀ s el, calloc s = some el → s.els el = none) (hs : s.Formed c)
    (hl : s.lists master = some l) (pub : DevInfo) :
    addCopy calloc master pub s = some (s, false) ∨
      ∃ t copy, addCopy calloc master pub s = some (t, true) ∧
        Keeps s t c (Function.update c master (c master ++ [(copy, pub.added)])) (some master) := by
  cases hcopy : calloc s with
  | none => exact Or.inl (by rw [addCopy, hcopy])
  | some copy =>
    have halloc : (s.alloc copy ⟨pub.added, none, none⟩).Formed c :=
      hs.alloc (hcalloc s copy hcopy) rfl
    have hnew : (s.alloc copy ⟨pub.added, none, none⟩).els copy = some ⟨pub.added, none, none⟩ :=
      Function.update_self ..
    obtain ⟨t, k, happend, ht, hlists, -⟩ := lkListAppend_spec halloc hl hnew rfl
    refine Or.inr ⟨t, copy, ?_, ht, fun id hid => ?_, isSome_update hl hlists⟩
    · rw [addCopy, hcopy]
      dsimp only
      rw [happend]
      rfl
    · have hne : id ≠ master := fun h => hid (congrArg some h.symm)
      refine ⟨Function.update_of_ne hne _ _, ?_⟩
      rw [hlists]
      exact Function.update_of_ne hne _ _

theorem addLoop_spec {calloc : DevLists → Option ElId}
    (hcalloc : ∀ s el, calloc s = some el → s.els el = none)
    {done rest : List (ElId × DevInfo)} {fuel : Nat} (hs : s.Formed c)
    (hl : ∃ l, s.lists master = some l) (hl' : ∃ l, s.lists slave = some l)
    (hc : c slave = done ++ rest) (hids : (rest.map fun x => x.2.deviceId).Nodup)
    (hfuel : rest.length < fuel) : ∃ t ok new,
      addLoop calloc master fuel ((rest.map Prod.fst).head?) s = some (t, ok) ∧
      Keeps s t c (Function.update c master (c master ++ new)) (some master) ∧
      (ok = true → new.map Prod.snd = ((rest.map Prod.snd).filter fun v =>
        (havingId (c master) v.deviceId).isNone).map DevInfo.added) ∧
      ((∀ x ∈ rest, havingId (c master) x.2.deviceId ≠ none) → ok = true) := by
  induction rest generalizing s c done fuel with
  | nil =>
    cases fuel with
    | zero => omega
    | succ fuel =>
      refine ⟨s, true, [], rfl, ?_, fun _ => rfl, fun _ => rfl⟩
      rw [List.append_nil, Function.update_eq_self]
      exact .refl hs _
  | cons x rest ih =>
    obtain ⟨el, v⟩ := x
    obtain ⟨l, hl⟩ := hl
    obtain ⟨l', hl'⟩ := hl'
    obtain ⟨hdistinct, hidsRest⟩ := List.nodup_cons.mp hids
    cases fuel with
    | zero => omega
    | succ fuel =>
      rw [List.length_cons] at hfuel
      have hlt : rest.length < fuel := by omega
      have hitems := hs.holds slave l' hl'
      rw [hc] at hitems
      obtain ⟨x, hx, rfl, hown, hnext⟩ := hitems.rest
      have hfind := lkListFindId_spec hs hl x.pub.deviceId
      cases hhas : havingId (c master) x.pub.deviceId with
      | some other =>
        have hfound : ∃ a, s.lkListFindId master x.pub.deviceId = some (some a) := by
          rw [← find?_pub, Option.map_eq_some_iff] at hhas
          obtain ⟨y, hy, -⟩ := hhas
          exact ⟨y.1, by rw [hfind, hy]; rfl⟩
        obtain ⟨a, hfound⟩ := hfound
        have hsplit : c slave = (done ++ [(el, x.pub)]) ++ rest := by
          rw [hc, List.append_assoc]
          rfl
        obtain ⟨t, ok, new, ht, hkeeps, hadded, hok⟩ := ih hs ⟨l, hl⟩ ⟨l', hl'⟩ hsplit hidsRest hlt
        refine ⟨t, ok, new, ?_, hkeeps, fun h => ?_, fun h => hok fun y hy => ?_⟩
        · rw [List.map_cons, List.head?_cons, addLoop]
          simp only [hx, hfound, Option.bind_eq_bind, Option.bind_some]
          rw [if_pos (by simp), hnext]
          exact ht
        · rw [hadded h, List.map_cons, List.filter_cons, if_neg (by simp [hhas])]
        · exact h y (List.mem_cons_of_mem _ hy)
      | none =>
        have hfound : s.lkListFindId master x.pub.deviceId = some none := by
          rw [← find?_pub, Option.map_eq_none_iff] at hhas
          rw [hfind, hhas]
          rfl
        rw [List.map_cons, List.head?_cons, addLoop]
        simp only [hx, hfound, Option.bind_eq_bind, Option.bind_some]
        rw [if_neg (by simp)]
        rcases addCopy_spec hcalloc hs hl x.pub with hfail | ⟨t, copy, hadd, hkeeps⟩
        · refine ⟨s, false, [], by rw [hfail]; rfl, ?_, fun h => (by cases h), fun h => ?_⟩
          · rw [List.append_nil, Function.update_eq_self]
            exact .refl hs _
          · exact absurd hhas (h _ List.mem_cons_self)
        · have hne : slave ≠ master := by
            rintro rfl
            apply havingId_eq_none.mp hhas
            rw [hc, List.map_append]
            exact List.mem_append_right _ List.mem_cons_self
          have hmaster := hkeeps.exists_list ⟨l, hl⟩
          obtain ⟨hslaveItems, hslaveList⟩ := hkeeps.others slave (by simpa using hne.symm)
          have hitems' := hkeeps.formed.holds slave l' (hslaveList.trans hl')
          rw [hslaveItems, hc] at hitems'
          obtain ⟨y, hy, -, -, hnexty⟩ := hitems'.rest
          have hsplit : Function.update c master (c master ++ [(copy, x.pub.added)]) slave =
              (done ++ [(el, x.pub)]) ++ rest := by
            rw [hslaveItems, hc, List.append_assoc]
            rfl
          obtain ⟨u, ok, new, hu, hkeeps', hadded, hok⟩ :=
            ih hkeeps.formed hmaster ⟨l', hslaveList.trans hl'⟩ hsplit hidsRest hlt
          rw [Function.update_self] at hkeeps' hadded hok
          rw [Function.update_idem, List.append_assoc] at hkeeps'
          have hsame : ∀ z ∈ rest, havingId (c master ++ [(copy, x.pub.added)]) z.2.deviceId =
              havingId (c master) z.2.deviceId := by
            intro z hz
            apply havingId_concat
            intro heq
            exact hdistinct (List.mem_map.mpr ⟨z, hz, heq.symm⟩)
          refine ⟨u, ok, (copy, x.pub.added) :: new, ?_, hkeeps.trans hkeeps', fun h => ?_,
            fun h => ?_⟩
          · rw [hadd]
            simp only [Option.bind_some, Bool.not_true, Bool.false_eq_true, if_false, hy, hnexty]
            exact hu
          · rw [List.map_cons, hadded h, List.map_cons, List.filter_cons, if_pos (by simp [hhas]),
              List.map_cons]
            congr 2
            apply List.filter_congr
            intro v hv
            obtain ⟨z, hz, rfl⟩ := List.mem_map.mp hv
            rw [hsame z hz]
          · exact absurd hhas (h _ List.mem_cons_self)

theorem dropLoop_spec {kept rest : List (ElId × DevInfo)} {fuel : Nat} (hs : s.Formed c)
    (hl : ∃ l, s.lists master = some l) (hc : c master = kept ++ rest)
    (hfuel : rest.length < fuel) : ∃ t,
      dropLoop master fuel ((rest.map Prod.fst).head?) s = some t ∧
      Keeps s t c (Function.update c master
        (kept ++ rest.filter fun x => x.2.syncFlags ≠ klstSyncFlagRemoved)) (some master) := by
  induction rest generalizing s c kept fuel with
  | nil =>
    cases fuel with
    | zero => omega
    | succ fuel =>
      refine ⟨s, rfl, ?_⟩
      rw [List.filter_nil, ← hc, Function.update_eq_self]
      exact .refl hs _
  | cons x rest ih =>
    obtain ⟨el, v⟩ := x
    obtain ⟨l, hl⟩ := hl
    cases fuel with
    | zero => omega
    | succ fuel =>
      rw [List.length_cons] at hfuel
      have hlt : rest.length < fuel := by omega
      have hitems := hs.holds master l hl
      rw [hc] at hitems
      obtain ⟨x, hx, rfl, hown, hnext⟩ := hitems.rest
      rw [List.map_cons, List.head?_cons, dropLoop]
      simp only [hx, Option.bind_eq_bind, Option.bind_some]
      by_cases hgone : x.pub.syncFlags = klstSyncFlagRemoved
      · obtain ⟨t, k, hunlink, ht, hlists, -, -, -, -, hel⟩ := lkListUnlink_spec hs hl hc hx
        have hfree := ht.free hel rfl
        have hmaster : (t.lkElFree el).lists master = some k := by
          show t.lists master = some k
          rw [hlists, Function.update_self]
        have hsplit : Function.update c master (kept ++ rest) master = kept ++ rest :=
          Function.update_self ..
        obtain ⟨u, hu, hkeeps⟩ := ih hfree ⟨k, hmaster⟩ hsplit hlt
        rw [Function.update_idem] at hkeeps
        refine ⟨u, ?_, ?_⟩
        · rw [if_pos hgone, hunlink, hnext]
          exact hu
        · rw [List.filter_cons, if_neg (by simp [hgone])]
          refine Keeps.trans ⟨hfree, fun id hid => ?_, isSome_update hl hlists⟩ hkeeps
          have hne : id ≠ master := fun h => hid (congrArg some h.symm)
          refine ⟨Function.update_of_ne hne _ _, ?_⟩
          show t.lists id = s.lists id
          rw [hlists, Function.update_of_ne hne]
      · have hsplit : c master = (kept ++ [(el, x.pub)]) ++ rest := by
          rw [hc, List.append_assoc]
          rfl
        obtain ⟨u, hu, hkeeps⟩ := ih hs ⟨l, hl⟩ hsplit hlt
        refine ⟨u, ?_, ?_⟩
        · rw [if_neg hgone, hnext]
          exact hu
        · rw [List.filter_cons, if_pos (by simp [hgone])]
          rw [List.append_assoc] at hkeeps
          exact hkeeps

/-! ### The result -/

theorem mark_removed_iff (found : Option DevInfo) (pub : DevInfo) :
    (pub.mark found).syncFlags = klstSyncFlagRemoved ↔ found = none := by
  cases found with
  | none => exact iff_of_true rfl rfl
  | some other =>
    refine iff_of_false ?_ (by simp)
    rw [DevInfo.mark]
    split
    · exact (by decide : klstSyncFlagConnectChange ≠ klstSyncFlagRemoved)
    · exact (by decide : klstSyncFlagUnchanged ≠ klstSyncFlagRemoved)

/-- The element of the master list stays. -/
def Survives (syncFlags : UInt32) (new : List (ElId × DevInfo)) (x : ElId × DevInfo) : Prop :=
  ¬Drops syncFlags ∨ havingId new x.2.deviceId ≠ none

instance (syncFlags : UInt32) (new : List (ElId × DevInfo)) (x : ElId × DevInfo) :
    Decidable (Survives syncFlags new x) :=
  inferInstanceAs (Decidable (¬Drops syncFlags ∨ havingId new x.2.deviceId ≠ none))

theorem dropGone_spec (hs : s.Formed c) (hl : s.lists master = some l) (syncFlags : UInt32) :
    ∃ t, s.dropGone master syncFlags = some t ∧
      Keeps s t c (Function.update c master ((c master).filter fun x =>
        ¬Drops syncFlags ∨ x.2.syncFlags ≠ klstSyncFlagRemoved)) (some master) := by
  rw [dropGone]
  by_cases hdrops : Drops syncFlags
  · have hchain := (hs.holds master l hl).fifo.chain
    obtain ⟨t, ht, hkeeps⟩ := dropLoop_spec hs ⟨l, hl⟩ (List.nil_append (c master)).symm
      (hs.length_lt hl)
    refine ⟨t, ?_, ?_⟩
    · rw [if_pos hdrops, hl]
      show dropLoop master (s.top + 1) l.head s = some t
      rw [hchain.head_eq]
      exact ht
    · simpa [hdrops] using hkeeps
  · refine ⟨s, if_neg hdrops, ?_⟩
    have hall : (c master).filter (fun x =>
        ¬Drops syncFlags ∨ x.2.syncFlags ≠ klstSyncFlagRemoved) = c master := by
      simp [hdrops]
    rw [hall, Function.update_eq_self]
    exact .refl hs _

theorem map_marked_deviceId (new items : List (ElId × DevInfo)) :
    (items.map (marked new)).map (fun x => x.2.deviceId) = items.map fun x => x.2.deviceId := by
  rw [List.map_map]
  exact List.map_congr_left fun x _ => mark_deviceId _ _

theorem havingId_marked (new items : List (ElId × DevInfo)) (deviceId : List UInt8) :
    havingId (items.map (marked new)) deviceId = none ↔ havingId items deviceId = none := by
  rw [havingId_eq_none, havingId_eq_none, map_marked_deviceId]

/-- The marked elements that the third loop leaves are those that survive. -/
theorem filter_marked (syncFlags : UInt32) (new items : List (ElId × DevInfo)) :
    (items.map (marked new)).filter (fun x =>
      ¬Drops syncFlags ∨ x.2.syncFlags ≠ klstSyncFlagRemoved) =
      (items.filter fun x => Survives syncFlags new x).map (marked new) := by
  rw [List.filter_map]
  congr 1
  apply List.filter_congr
  intro x _
  refine decide_eq_decide.mpr (or_congr_right (not_congr ?_))
  exact mark_removed_iff _ _

/-- The elements of a list have nothing to be added to it. -/
theorem filter_self (items : List (ElId × DevInfo)) :
    (items.map Prod.snd).filter (fun v => (havingId items v.deviceId).isNone) = [] := by
  apply List.filter_eq_nil_iff.mpr
  intro v hv hnone
  obtain ⟨x, hx, rfl⟩ := List.mem_map.mp hv
  exact havingId_eq_none.mp (Option.isNone_iff_eq_none.mp hnone) (List.mem_map_of_mem hx)

/-- What the three loops make of the master list. -/
theorem lstKSync_items {calloc : DevLists → Option ElId}
    (hcalloc : ∀ s el, calloc s = some el → s.els el = none) (hs : s.Formed c)
    (hl : ∃ l, s.lists master = some l) (hl' : ∃ l, s.lists slave = some l)
    (hold : ((c master).map fun x => x.2.deviceId).Nodup)
    (hnew : ((c slave).map fun x => x.2.deviceId).Nodup) (syncFlags : UInt32) : ∃ t ok,
      s.lstKSync calloc (some master) slave syncFlags = some (t, ok) ∧
      (ok = true → ∃ copies, Keeps s t c (Function.update c master
          (((c master).filter fun x => Survives syncFlags (c slave) x).map (marked (c slave)) ++
            copies)) (some master) ∧
        copies.map Prod.snd = (((c slave).map Prod.snd).filter fun v =>
          (havingId (c master) v.deviceId).isNone).map DevInfo.added ∧
        ∃ l, t.lists master = some l ∧ l.cursor = none ∧ l.started = false) ∧
      ((∀ x ∈ c slave, havingId (c master) x.2.deviceId ≠ none) → ok = true) := by
  obtain ⟨l, hl⟩ := hl
  obtain ⟨l', hl'⟩ := hl'
  obtain ⟨t, ht, hformed, hlists, htop⟩ := markLoop_spec hs ⟨l, hl⟩ ⟨l', hl'⟩
    (List.nil_append _).symm hold (fun _ _ => rfl) (hs.length_lt hl)
  rw [List.nil_append] at hformed
  obtain ⟨d, hd⟩ : ∃ d, d = Function.update c master ((c master).map (marked (c slave))) :=
    ⟨_, rfl⟩
  rw [← hd] at hformed
  have hmaster : d master = (c master).map (marked (c slave)) := by
    rw [hd, Function.update_self]
  have hslave : slave ≠ master → d slave = c slave := by
    intro hne
    rw [hd, Function.update_of_ne hne]
  have hids : ((d slave).map fun x => x.2.deviceId).Nodup := by
    by_cases hself : slave = master
    · rw [hself, hmaster, map_marked_deviceId]
      exact hold
    · rw [hslave hself]
      exact hnew
  have hpubs : ((d slave).map Prod.snd).filter (fun v => (havingId (d master) v.deviceId).isNone) =
      ((c slave).map Prod.snd).filter fun v => (havingId (c master) v.deviceId).isNone := by
    by_cases hself : slave = master
    · rw [hself, filter_self, filter_self]
    · rw [hslave hself, hmaster]
      apply List.filter_congr
      intro pub _
      rw [Bool.eq_iff_iff, Option.isNone_iff_eq_none, Option.isNone_iff_eq_none, havingId_marked]
  have hlt := hlists ▸ hl
  have hlt' := hlists ▸ hl'
  have hmark : Keeps s t c d (some master) := by
    refine ⟨hformed, fun id hid => ⟨?_, by rw [hlists]⟩, fun id => by rw [hlists]⟩
    rw [hd, Function.update_of_ne fun h => hid (congrArg some h.symm)]
  obtain ⟨u, ok, copies, hu, hadd, hadded, hok⟩ := addLoop_spec hcalloc hformed ⟨l, hlt⟩
    ⟨l', hlt'⟩ (List.nil_append _).symm hids (hformed.length_lt hlt')
  rw [hpubs] at hadded
  have hhead := (hs.holds master l hl).head_eq
  have hhead' := (hformed.holds slave l' hlt').head_eq
  rw [lstKSync]
  simp only [hl, hhead, Option.bind_eq_bind, Option.bind_some, ht, hlt', hhead', hu]
  cases ok with
  | false =>
    refine ⟨u, false, rfl, fun h => (by cases h), fun h => hok fun x hx hnone => ?_⟩
    by_cases hself : slave = master
    · rw [hself] at hx
      exact havingId_eq_none.mp hnone (List.mem_map_of_mem hx)
    · rw [hslave hself] at hx
      rw [hmaster, havingId_marked] at hnone
      exact h x hx hnone
  | true =>
    obtain ⟨k, hk⟩ := hadd.exists_list ⟨l, hlt⟩
    obtain ⟨v, hv, hdrop⟩ := dropGone_spec hadd.formed hk syncFlags
    obtain ⟨k', hk'⟩ := hdrop.exists_list ⟨k, hk⟩
    have hreset := Changes.of_cursor hdrop.formed hk' none (fun _ h => by cases h) false
    have hcopies : copies.filter (fun x =>
        ¬Drops syncFlags ∨ x.2.syncFlags ≠ klstSyncFlagRemoved) = copies := by
      apply List.filter_eq_self.mpr
      intro x hx
      have hmem : x.2 ∈ copies.map Prod.snd := List.mem_map_of_mem hx
      rw [hadded rfl] at hmem
      obtain ⟨pub, -, hpub⟩ := List.mem_map.mp hmem
      rw [← hpub]
      exact decide_eq_true (Or.inr (by decide : klstSyncFlagAdded ≠ klstSyncFlagRemoved))
    have hall := ((hmark.trans hadd).trans hdrop).trans hreset.toKeeps
    rw [Function.update_self, Function.update_idem, List.filter_append, hmaster, filter_marked,
      hcopies, hd, Function.update_idem] at hall
    refine ⟨_, true, ?_, fun _ => ⟨copies, hall, hadded rfl, _, Function.update_self .., rfl, rfl⟩,
      fun _ => rfl⟩
    simp only [Bool.not_true, Bool.false_eq_true, if_false, hv, Option.bind_some, setList_eq hk']
    rfl

/-- The sync state of an element that the old master list had as `old` and the slave list has as
`new`. -/
def dictated (old new : Option DevInfo) : UInt32 :=
  match old, new with
  | none, _ => klstSyncFlagAdded
  | some _, none => klstSyncFlagRemoved
  | some old, some new =>
    if new.connected ≠ old.connected then klstSyncFlagConnectChange else klstSyncFlagUnchanged

/-- The master list `result` after a sync of `old` with the slave list `new`. -/
structure Synced (syncFlags : UInt32) (old new result : List (ElId × DevInfo)) : Prop where
  /-- the surviving elements are first, where they were in memory -/
  kept : (old.filter fun x => Survives syncFlags new x).map Prod.fst <+: result.map Prod.fst
  /-- they are marked, in their order, and the added ones follow in the order of the slave list -/
  pubs : result.map Prod.snd = reconcile DevInfo.deviceId DevInfo.mark DevInfo.added
    (new.map Prod.snd) ((old.filter fun x => Survives syncFlags new x).map Prod.snd)
  nodup : (result.map fun x => x.2.deviceId).Nodup
  identities : ∀ deviceId, deviceId ∈ result.map (fun x => x.2.deviceId) ↔
    deviceId ∈ new.map (fun x => x.2.deviceId) ∨
      ¬Drops syncFlags ∧ deviceId ∈ old.map (fun x => x.2.deviceId)
  state : ∀ x ∈ result,
    x.2.syncFlags = dictated (havingId old x.2.deviceId) (havingId new x.2.deviceId)
  connected : ∀ x ∈ result, x.2.connected = (havingId new x.2.deviceId).elim 0 DevInfo.connected

theorem mark_syncFlags (found : Option DevInfo) (pub : DevInfo) :
    (pub.mark found).syncFlags = dictated (some pub) found := by
  cases found with
  | none => rfl
  | some other =>
    rw [DevInfo.mark, dictated]
    split
    · rfl
    · rfl

theorem mark_connected (found : Option DevInfo) (pub : DevInfo) :
    (pub.mark found).connected = found.elim 0 DevInfo.connected := by
  cases found with
  | none => rfl
  | some other =>
    rw [DevInfo.mark]
    split
    · rfl
    · rename_i hsame
      exact (not_not.mp hsame).symm

section Synced

variable {syncFlags : UInt32} {old new : List (ElId × DevInfo)}

theorem map_pub_deviceId (items : List (ElId × DevInfo)) :
    (items.map Prod.snd).map DevInfo.deviceId = items.map fun x => x.2.deviceId := List.map_map

theorem havingId_of_mem (hids : (old.map fun x => x.2.deviceId).Nodup) {x : ElId × DevInfo}
    (hx : x ∈ old) : havingId old x.2.deviceId = some x.2 := by
  apply lookup_of_mem
  · rw [map_pub_deviceId]
    exact hids
  · exact List.mem_map_of_mem hx

theorem mem_survivors {deviceId : List UInt8} :
    deviceId ∈ (old.filter fun x => Survives syncFlags new x).map (fun x => x.2.deviceId) ↔
      deviceId ∈ old.map (fun x => x.2.deviceId) ∧
        (¬Drops syncFlags ∨ deviceId ∈ new.map fun x => x.2.deviceId) := by
  have hnew : ∀ x : ElId × DevInfo, Survives syncFlags new x ↔
      ¬Drops syncFlags ∨ x.2.deviceId ∈ new.map fun x => x.2.deviceId := fun x =>
    or_congr_right (not_iff_comm.mp havingId_eq_none.symm)
  constructor
  · intro h
    obtain ⟨x, hx, rfl⟩ := List.mem_map.mp h
    obtain ⟨hmem, hsurvives⟩ := List.mem_filter.mp hx
    exact ⟨List.mem_map_of_mem hmem, (hnew x).mp (of_decide_eq_true hsurvives)⟩
  · rintro ⟨h, hsurvives⟩
    obtain ⟨x, hx, rfl⟩ := List.mem_map.mp h
    refine List.mem_map.mpr ⟨x, List.mem_filter.mpr ⟨hx, ?_⟩, rfl⟩
    exact decide_eq_true ((hnew x).mpr hsurvives)

/-- An element of the result comes from the old list, or from the new one alone. -/
theorem mem_result {copies : List (ElId × DevInfo)}
    (hcopies : copies.map Prod.snd = ((new.map Prod.snd).filter fun v =>
      (havingId old v.deviceId).isNone).map DevInfo.added) {x : ElId × DevInfo}
    (hx : x ∈ (old.filter fun x => Survives syncFlags new x).map (marked new) ++ copies) :
    (∃ y ∈ old, x.2 = y.2.mark (havingId new y.2.deviceId)) ∨
      ∃ y ∈ new, havingId old y.2.deviceId = none ∧ x.2 = y.2.added := by
  rcases List.mem_append.mp hx with hx | hx
  · obtain ⟨y, hy, rfl⟩ := List.mem_map.mp hx
    exact Or.inl ⟨y, (List.mem_filter.mp hy).1, rfl⟩
  · have hmem : x.2 ∈ copies.map Prod.snd := List.mem_map_of_mem hx
    rw [hcopies] at hmem
    obtain ⟨pub, hpub, heq⟩ := List.mem_map.mp hmem
    obtain ⟨hin, hnone⟩ := List.mem_filter.mp hpub
    obtain ⟨y, hy, rfl⟩ := List.mem_map.mp hin
    exact Or.inr ⟨y, hy, Option.isNone_iff_eq_none.mp hnone, heq.symm⟩

theorem pubs_eq_reconcile (syncFlags : UInt32) {copies : List (ElId × DevInfo)}
    (hcopies : copies.map Prod.snd = ((new.map Prod.snd).filter fun v =>
      (havingId old v.deviceId).isNone).map DevInfo.added) :
    ((old.filter fun x => Survives syncFlags new x).map (marked new) ++ copies).map Prod.snd =
      reconcile DevInfo.deviceId DevInfo.mark DevInfo.added (new.map Prod.snd)
        ((old.filter fun x => Survives syncFlags new x).map Prod.snd) := by
  rw [List.map_append, hcopies, reconcile, List.map_map, List.map_map]
  congr 2
  apply List.filter_congr
  intro pub hpub
  obtain ⟨y, hy, rfl⟩ := List.mem_map.mp hpub
  have hin : y.2.deviceId ∈ new.map fun x => x.2.deviceId := List.mem_map_of_mem hy
  rw [Bool.eq_iff_iff, Option.isNone_iff_eq_none, Option.isNone_iff_eq_none, havingId_eq_none]
  show _ ↔ havingId (old.filter fun x => Survives syncFlags new x) y.2.deviceId = none
  rw [havingId_eq_none, mem_survivors]
  exact not_congr (iff_self_and.mpr fun _ => Or.inr hin)

/-- What the loops make is what a sync is for. -/
theorem synced_of_items (syncFlags : UInt32)
    (hold : (old.map fun x => x.2.deviceId).Nodup)
    (hnew : (new.map fun x => x.2.deviceId).Nodup) {copies : List (ElId × DevInfo)}
    (hcopies : copies.map Prod.snd = ((new.map Prod.snd).filter fun v =>
      (havingId old v.deviceId).isNone).map DevInfo.added) :
    Synced syncFlags old new
      ((old.filter fun x => Survives syncFlags new x).map (marked new) ++ copies) := by
  have hpubs := pubs_eq_reconcile syncFlags hcopies
  refine ⟨?_, hpubs, ?_, fun deviceId => ?_, fun x hx => ?_, fun x hx => ?_⟩
  · rw [List.map_append, List.map_map]
    exact List.prefix_append _ _
  · rw [← map_pub_deviceId, hpubs]
    apply nodup_reconcile mark_deviceId added_deviceId
    · rw [map_pub_deviceId]
      exact hnew
    · rw [map_pub_deviceId]
      exact hold.sublist (List.filter_sublist.map _)
  · rw [← map_pub_deviceId, hpubs, mem_reconcile_keys mark_deviceId added_deviceId,
      map_pub_deviceId, map_pub_deviceId, mem_survivors]
    constructor
    · rintro (⟨hin, hstays⟩ | hin)
      · exact hstays.symm.imp_right fun h => ⟨h, hin⟩
      · exact Or.inl hin
    · rintro (hin | ⟨hstays, hin⟩)
      · exact Or.inr hin
      · exact Or.inl ⟨hin, Or.inl hstays⟩
  · rcases mem_result hcopies hx with ⟨y, hy, heq⟩ | ⟨y, hy, hnone, heq⟩
    · rw [heq, mark_deviceId, mark_syncFlags, havingId_of_mem hold hy]
    · rw [heq, added_deviceId, hnone]
      rfl
  · rcases mem_result hcopies hx with ⟨y, hy, heq⟩ | ⟨y, hy, hnone, heq⟩
    · rw [heq, mark_deviceId, mark_connected]
    · rw [heq, added_deviceId, havingId_of_mem hnew hy]
      rfl

end Synced

/-- A sync that returns `TRUE` brings the master list up to date, at whatever addresses `calloc`
finds memory, and changes no other list; another one with the same slave list succeeds, adds nothing
and marks everything unchanged or removed. -/
theorem lstKSync_spec {calloc : DevLists → Option ElId}
    (hcalloc : ∀ s el, calloc s = some el → s.els el = none) (hs : s.Formed c)
    (hl : ∃ l, s.lists master = some l) (hl' : ∃ l, s.lists slave = some l)
    (hold : ((c master).map fun x => x.2.deviceId).Nodup)
    (hnew : ((c slave).map fun x => x.2.deviceId).Nodup) (syncFlags : UInt32) : ∃ t ok,
      s.lstKSync calloc (some master) slave syncFlags = some (t, ok) ∧
      (ok = true → ∃ c', Keeps s t c c' (some master) ∧
        Synced syncFlags (c master) (c slave) (c' master) ∧
        (slave ≠ master → c' slave = c slave ∧ t.lists slave = s.lists slave) ∧
        (∃ l, t.lists master = some l ∧ l.cursor = none ∧ l.started = false) ∧
        ∀ again, ∃ u c'', t.lstKSync calloc (some master) slave again = some (u, true) ∧
          Keeps t u c' c'' (some master) ∧
          ((c'' master).map Prod.fst).Sublist ((c' master).map Prod.fst) ∧
          ∀ x ∈ c'' master, x.2.syncFlags = klstSyncFlagUnchanged ∨
            x.2.syncFlags = klstSyncFlagRemoved) := by
  obtain ⟨t, ok, ht, hsync, -⟩ := lstKSync_items hcalloc hs hl hl' hold hnew syncFlags
  refine ⟨t, ok, ht, fun hok => ?_⟩
  obtain ⟨copies, hkeeps, hcopies, hreset⟩ := hsync hok
  have hsynced := synced_of_items syncFlags hold hnew hcopies
  obtain ⟨d, hd⟩ : ∃ d, d = Function.update c master (((c master).filter fun x =>
      Survives syncFlags (c slave) x).map (marked (c slave)) ++ copies) := ⟨_, rfl⟩
  rw [← hd] at hkeeps
  have hmaster : d master = ((c master).filter fun x => Survives syncFlags (c slave) x).map
      (marked (c slave)) ++ copies := by
    rw [hd, Function.update_self]
  rw [← hmaster] at hsynced
  have hslave : slave ≠ master → d slave = c slave ∧ t.lists slave = s.lists slave := fun hne =>
    hkeeps.others slave fun h => hne (Option.some.inj h).symm
  refine ⟨d, hkeeps, hsynced, hslave, hreset, fun again => ?_⟩
  have hfinds : ∀ x ∈ d slave, havingId (d master) x.2.deviceId ≠ none := by
    intro x hx hnone
    apply havingId_eq_none.mp hnone
    by_cases hself : slave = master
    · rw [hself] at hx
      exact List.mem_map_of_mem hx
    · rw [(hslave hself).1] at hx
      exact (hsynced.identities _).mpr (Or.inl (List.mem_map_of_mem hx))
  have hagrees : ∀ y ∈ d master, ∀ other, havingId (d slave) y.2.deviceId = some other →
      other.connected = y.2.connected := by
    intro y hy other hother
    by_cases hself : slave = master
    · rw [hself, havingId_of_mem hsynced.nodup hy] at hother
      cases hother
      rfl
    · rw [(hslave hself).1] at hother
      rw [hsynced.connected y hy, hother]
      rfl
  have hids : ((d slave).map fun x => x.2.deviceId).Nodup := by
    by_cases hself : slave = master
    · rw [hself]
      exact hsynced.nodup
    · rw [(hslave hself).1]
      exact hnew
  obtain ⟨u, ok', hu, hsync', hok'⟩ := lstKSync_items hcalloc hkeeps.formed
    (hkeeps.exists_list hl) (hkeeps.exists_list hl') hsynced.nodup hids again
  have htrue := hok' hfinds
  obtain ⟨copies', hkeeps', hcopies', -⟩ := hsync' htrue
  have hnil : copies' = [] := by
    rw [List.filter_eq_nil_iff.mpr, List.map_nil, List.map_eq_nil_iff] at hcopies'
    · exact hcopies'
    · intro pub hpub
      obtain ⟨x, hx, rfl⟩ := List.mem_map.mp hpub
      simpa using hfinds x hx
  rw [hnil, List.append_nil] at hkeeps'
  refine ⟨u, _, by rw [hu, htrue], hkeeps', ?_, fun x hx => ?_⟩
  · rw [Function.update_self, List.map_map]
    exact List.filter_sublist.map _
  · rw [Function.update_self] at hx
    obtain ⟨y, hy, rfl⟩ := List.mem_map.mp hx
    have hagree := hagrees y (List.mem_filter.mp hy).1
    have hflags : (marked (d slave) y).2.syncFlags =
        dictated (some y.2) (havingId (d slave) y.2.deviceId) := mark_syncFlags _ _
    rw [hflags]
    cases hfound : havingId (d slave) y.2.deviceId with
    | none => exact Or.inr rfl
    | some other => exact Or.inl (if_neg (not_not.mpr (hagree other hfound)))

/-- A list of A and B, and one of B, which is not connected any more, and C. -/
def twoLists : DevLists where
  els
    | 0 => some ⟨⟨[0x41], 1, klstSyncFlagUnchanged⟩, some 0, some 1⟩
    | 1 => some ⟨⟨[0x42], 1, klstSyncFlagUnchanged⟩, some 0, none⟩
    | 2 => some ⟨⟨[0x42], 0, klstSyncFlagUnchanged⟩, some 1, some 3⟩
    | 3 => some ⟨⟨[0x43], 1, klstSyncFlagUnchanged⟩, some 1, none⟩
    | _ => none
  lists
    | 0 => some ⟨some 0, some 1, none, false, 2⟩
    | 1 => some ⟨some 2, some 3, none, false, 2⟩
    | _ => none
  top := 4

def twoListsItems : ListId → List (ElId × DevInfo)
  | 0 => [(0, ⟨[0x41], 1, klstSyncFlagUnchanged⟩), (1, ⟨[0x42], 1, klstSyncFlagUnchanged⟩)]
  | 1 => [(2, ⟨[0x42], 0, klstSyncFlagUnchanged⟩), (3, ⟨[0x43], 1, klstSyncFlagUnchanged⟩)]
  | _ => []

theorem twoLists_formed : twoLists.Formed twoListsItems := by
  refine ⟨?_, ?_⟩
  · rintro (_ | _ | _ | _ | el) hel
    · exact absurd hel (by decide)
    · exact absurd hel (by decide)
    · exact absurd hel (by decide)
    · exact absurd hel (by decide)
    · rfl
  · rintro (_ | _ | id) l hl
    · cases hl
      refine ⟨⟨⟨rfl, some 1, rfl, rfl, none, rfl, rfl⟩, rfl⟩, rfl, ?_, fun _ h => by cases h⟩
      rintro (_ | _ | _ | _ | el)
      · exact iff_of_true (by decide) ⟨_, rfl, rfl⟩
      · exact iff_of_true (by decide) ⟨_, rfl, rfl⟩
      · exact iff_of_false (by decide) (fun ⟨_, hx, hown⟩ => by cases hx; cases hown)
      · exact iff_of_false (by decide) (fun ⟨_, hx, hown⟩ => by cases hx; cases hown)
      · refine iff_of_false ?_ (fun ⟨_, hx, _⟩ => by cases hx)
        simp [twoListsItems]
    · cases hl
      refine ⟨⟨⟨rfl, some 3, rfl, rfl, none, rfl, rfl⟩, rfl⟩, rfl, ?_, fun _ h => by cases h⟩
      rintro (_ | _ | _ | _ | el)
      · exact iff_of_false (by decide) (fun ⟨_, hx, hown⟩ => by cases hx; cases hown)
      · exact iff_of_false (by decide) (fun ⟨_, hx, hown⟩ => by cases hx; cases hown)
      · exact iff_of_true (by decide) ⟨_, rfl, rfl⟩
      · exact iff_of_true (by decide) ⟨_, rfl, rfl⟩
      · refine iff_of_false ?_ (fun ⟨_, hx, _⟩ => by cases hx)
        simp [twoListsItems]
    · cases hl

/-- Memory is found at the end. -/
def callocTop (s : DevLists) : Option ElId := if s.els s.top = none then some s.top else none

theorem lstKSync_twoLists : ∃ t c', twoLists.lstKSync callocTop (some 0) 1 klstSyncFlagRemoved =
    some (t, true) ∧ t.Formed c' ∧ (c' 0).map Prod.snd =
      [⟨[0x42], 0, klstSyncFlagConnectChange⟩, ⟨[0x43], 1, klstSyncFlagAdded⟩] := by
  have hcalloc : ∀ s el, callocTop s = some el → s.els el = none := by
    intro s el h
    rw [callocTop] at h
    split at h
    · cases h
      assumption
    · cases h
  have hmaster : ∃ l, twoLists.lists 0 = some l := ⟨_, rfl⟩
  have hslave : ∃ l, twoLists.lists 1 = some l := ⟨_, rfl⟩
  obtain ⟨t, ok, ht, hsync⟩ := lstKSync_spec hcalloc twoLists_formed hmaster hslave
    (by decide) (by decide) klstSyncFlagRemoved
  have hok : ok = true := by
    cases ht
    rfl
  obtain ⟨c', hkeeps, hsynced, -⟩ := hsync hok
  refine ⟨t, c', hok ▸ ht, hkeeps.formed, ?_⟩
  rw [hsynced.pubs]
  decide

end DevLists

end Usbip.Libusbk
