import Usbip.Build.Pipe
import Usbip.Lib.Walk

/-! The configuration descriptor. What a host reads is the header and the descriptors placed, in
order, each interface descriptor with the number of endpoint descriptors that follow it, as long as
the table of interface descriptors has room. -/

namespace Usbip

open Lib Device

/-- A 16-bit field on the wire. -/
def le16 (low high : UInt8) : Nat := low.toNat + 256 * high.toNat

theorem le16_u16le {n : Nat} (h : n < 65536) :
    le16 n.toUInt16.toUInt8 (n.toUInt16 >>> 8).toUInt8 = n := by
  simp [le16, Nat.shiftRight_eq_div_pow]
  omega

/-- The descriptor's bytes, with `n` in `bNumEndpoints` of an interface descriptor. -/
def Placed.withCount (n : Nat) : Placed → List UInt8
  | interface _ _ bytes => bytes.set 4 n.toUInt8
  | p => p.bytes

/-- The descriptors placed, each interface's with the number of endpoint descriptors between it and
the next. -/
def counted : List Placed → List (List UInt8)
  | [] => []
  | p :: rest => p.withCount (addrs (upToHead Placed.setting rest)).length :: counted rest

/-- The interfaces and alternate settings of the interface descriptors. -/
def settings (placed : List Placed) : List (UInt8 × UInt8) := placed.filterMap Placed.setting

theorem settings_concat (placed : List Placed) (p : Placed) :
    settings (placed ++ [p]) = settings placed ++ p.setting.toList := by
  rw [settings, List.filterMap_append]
  cases p <;> rfl

theorem settings_concat_none (placed : List Placed) {p : Placed} (hp : p.setting = none) :
    settings (placed ++ [p]) = settings placed := by
  rw [settings_concat, hp, Option.toList_none, List.append_nil]

theorem settings_of_none {placed : List Placed} (h : ∀ p ∈ placed, p.setting = none) :
    settings placed = [] := List.filterMap_eq_nil_iff.mpr h

/-- The highest interface number plus one. -/
def numInterfaces (placed : List Placed) : Nat :=
  (settings placed).foldl (fun n s => max n (s.1.toNat + 1)) 0

/-- The records of the interface descriptors, of which the first one is at `off`. -/
def records : Nat → List Placed → List IfAlt
  | _, [] => []
  | off, .interface ifnum alt bytes :: rest =>
    ⟨ifnum, alt, off⟩ :: records (off + bytes.length) rest
  | off, p :: rest => records (off + p.bytes.length) rest

section counted

variable {l m : List Placed} {p : Placed} {s : UInt8 × UInt8}

@[simp] theorem length_withCount (n : Nat) (p : Placed) :
    (p.withCount n).length = p.bytes.length := by
  cases p <;> simp [Placed.withCount, Placed.bytes]

theorem withCount_of_none (hp : p.setting = none) (n : Nat) : p.withCount n = p.bytes := by
  cases p with
  | interface => cases hp
  | endpoint | other => rfl

theorem length_counted (l : List Placed) :
    (counted l).flatten.length = (l.map Placed.bytes).flatten.length := by
  induction l with
  | nil => rfl
  | cons p l ih => simp [counted, ih]

theorem counted_append_head (l m : List Placed) (hp : p.setting = some s) :
    counted (l ++ p :: m) = counted l ++ counted (p :: m) := by
  induction l with
  | nil => rfl
  | cons q l ih =>
    rw [List.cons_append, counted, upToHead_append_head l m hp, ih]
    rfl

theorem counted_of_none (h : ∀ p ∈ l, p.setting = none) : counted l = l.map Placed.bytes := by
  induction l with
  | nil => rfl
  | cons p l ih =>
    obtain ⟨hp, hl⟩ := List.forall_mem_cons.mp h
    rw [counted, withCount_of_none hp, ih hl]
    rfl

/-- The last interface descriptor counts what follows it. -/
theorem counted_split (before : List Placed) (hp : p.setting = some s)
    (hm : ∀ q ∈ m, q.setting = none) :
    counted (before ++ p :: m) =
      counted before ++ p.withCount (addrs m).length :: m.map Placed.bytes := by
  rw [counted_append_head before m hp, counted, upToHead_of_none hm, counted_of_none hm]

/-- A descriptor that is neither an interface's nor an endpoint's changes no count. -/
theorem counted_concat_other (l : List Placed) (hp : p.setting = none) (ha : p.addr = none) :
    counted (l ++ [p]) = counted l ++ [p.bytes] := by
  cases hlast : lastHead Placed.setting l with
  | none =>
    have hl := lastHead_eq_none.mp hlast
    rw [counted_of_none hl, counted_of_none (List.forall_mem_append.mpr
      ⟨hl, List.forall_mem_singleton.mpr hp⟩), List.map_append]
    rfl
  | some s =>
    obtain ⟨before, q, after, rfl, hq, hafter⟩ := exists_split_of_lastHead hlast
    rw [List.append_assoc, List.cons_append, counted_split before hq hafter,
      counted_split before hq (List.forall_mem_append.mpr
        ⟨hafter, List.forall_mem_singleton.mpr hp⟩), addrs_concat, ha]
    simp

theorem records_append (off : Nat) (l m : List Placed) :
    records off (l ++ m) =
      records off l ++ records (off + (l.map Placed.bytes).flatten.length) m := by
  induction l generalizing off with
  | nil => simp [records]
  | cons p l ih =>
    cases p <;> simp [records, ih, Placed.bytes, Nat.add_assoc]

theorem records_of_none (off : Nat) (h : ∀ p ∈ l, p.setting = none) : records off l = [] := by
  induction l generalizing off with
  | nil => rfl
  | cons p l ih =>
    obtain ⟨hp, hl⟩ := List.forall_mem_cons.mp h
    cases p with
    | interface => cases hp
    | endpoint | other => exact ih _ hl

/-- There is a record for each interface descriptor. -/
theorem records_settings (off : Nat) (l : List Placed) :
    (records off l).map (fun ia => (ia.ifnum, ia.alt)) = settings l := by
  induction l generalizing off with
  | nil => rfl
  | cons p l ih =>
    cases p with
    | interface ifnum alt bytes =>
      rw [records, List.map_cons, ih]
      rfl
    | endpoint | other => exact ih _

theorem length_records (off : Nat) (l : List Placed) :
    (records off l).length = (settings l).length := by
  rw [← records_settings off l, List.length_map]

end counted

theorem modify_set_self {α : Type} (f : α → α) (l : List α) (i : Nat) (v : α) :
    (l.set i v).modify i f = l.set i (f v) := by
  induction l generalizing i with
  | nil => cases i <;> rfl
  | cons a l ih =>
    cases i with
    | zero => rfl
    | succ i => rw [List.set_cons_succ, List.modify_succ_cons, ih, List.set_cons_succ]

theorem descLen_lt (desc : List UInt8) : descLen desc < 256 := by
  unfold descLen
  split
  · exact UInt8.toNat_lt _
  · split <;> first | omega | exact UInt8.toNat_lt _

theorem normalize_getElem? {desc : List UInt8} {i : Nat} (h : i + 1 < descLen desc) :
    (normalize desc)[i + 1]? = some (byteAt desc (i + 1)) := by
  have htake : ∀ (n : Nat) (l : List UInt8) (i : Nat), i < n →
      (l.takeD n 0)[i]? = some (l.getD i 0) := by
    intro n
    induction n with
    | zero => exact fun _ _ hi => absurd hi (Nat.not_lt_zero _)
    | succ n ih =>
      intro l i hi
      cases i with
      | zero => cases l <;> rfl
      | succ i =>
        cases l with
        | nil => exact ih [] i (by omega)
        | cons a l => exact ih l i (by omega)
  rw [normalize, List.getElem?_set_ne (by omega), htake _ _ _ h]
  rfl

theorem framed_normalize {desc : List UInt8} (h : 0 < descLen desc) :
    Framed UInt8.toNat (normalize desc) := by
  have hlen := normalize_length desc
  have hlt := descLen_lt desc
  rw [normalize] at hlen ⊢
  generalize desc.takeD (descLen desc) 0 = bytes at hlen ⊢
  cases bytes with
  | nil =>
    rw [List.set_nil, List.length_nil] at hlen
    omega
  | cons a l =>
    refine ⟨(descLen desc).toUInt8, l, rfl, ?_⟩
    rw [hlen]
    exact UInt8.toNat_ofNat_of_lt' hlt

namespace Device

variable {dev : Device} {ifnum alt : UInt8} {dst : Nat} {ep : Ep}

theorem recordOf_eq_find? (dev : Device) (ifnum alt : UInt8) :
    dev.recordOf ifnum alt = dev.ifalts.find? fun ia => ia.ifnum = ifnum ∧ ia.alt = alt :=
  List.find?_eq_bind_findIdx?_getElem?.symm

theorem appendInterface_nIfnums (dev : Device) (dst : Nat) (ifnum alt : UInt8) :
    (dev.appendInterface dst ifnum alt).nIfnums = max dev.nIfnums (ifnum.toNat + 1) := by
  have hreg : (dev.registerIfnum ifnum).nIfnums = max dev.nIfnums (ifnum.toNat + 1) := by
    unfold registerIfnum; dsimp only; split <;> rfl
  unfold appendInterface; dsimp only; split <;> [skip; split] <;> exact hreg

/-- A new setting gets the next record, as long as there is one. -/
theorem appendInterface_ifalts (h : dev.ifaltFor ifnum alt = none) :
    (dev.appendInterface dst ifnum alt).ifalts =
      if dev.ifalts.length < ifaltsCap then dev.ifalts ++ [IfAlt.mk ifnum alt dst]
      else dev.ifalts := by
  have hnone : ({ dev.registerIfnum ifnum with cur := some (ifnum, alt) } : Device).ifaltFor
      ifnum alt = none := by
    simpa [ifaltFor] using h
  simp only [appendInterface, hnone]
  rw [apply_ite Device.ifalts]
  simp only [registerIfnum_ifalts]

@[simp] theorem countEndpoint_ifalts (dev : Device) : dev.countEndpoint.ifalts = dev.ifalts := by
  unfold countEndpoint; split <;> [skip; split] <;> rfl

@[simp] theorem countEndpoint_nIfnums (dev : Device) : dev.countEndpoint.nIfnums = dev.nIfnums := by
  unfold countEndpoint; split <;> [skip; split] <;> rfl

theorem countEndpoint_descr {off : Nat} (hcur : dev.cur = some (ifnum, alt))
    (hrec : dev.recordOf ifnum alt = some ⟨ifnum, alt, off⟩) :
    dev.countEndpoint.descr = dev.descr.modify (off + 4) (· + 1) := by
  simp only [countEndpoint, hcur]
  rw [hrec]

theorem countEndpoint_of_none (h : ∀ s, dev.cur = some s → dev.recordOf s.1 s.2 = none) :
    dev.countEndpoint.descr = dev.descr := by
  unfold countEndpoint
  split
  · rfl
  · rename_i hcur
    rw [h _ hcur]

theorem configReply_eq (h : dev.descr.length ≤ descrCap) :
    dev.configReply = [9, 2] ++ u16le (9 + dev.descr.length).toUInt16 ++
      [dev.nIfnums.toUInt8, 1, 0, 0x80, 50] ++ dev.descr := by
  have hlen : dev.descr.length ≤ 2048 := h
  rw [configReply, buildConfigDesc, Nat.min_eq_left (by omega), Nat.add_sub_cancel_left,
    List.take_length]

/-- A host that walks the reply meets the header and the blocks of the blob. -/
theorem walk_configReply (h : dev.descr.length ≤ descrCap) {blocks : List (List UInt8)}
    (hdescr : dev.descr = blocks.flatten) (hframed : ∀ b ∈ blocks, Framed UInt8.toNat b) :
    walk UInt8.toNat dev.configReply = some (dev.configReply.take 9 :: blocks) := by
  have hreply := configReply_eq h
  have hheader : Framed UInt8.toNat (dev.configReply.take 9) := by
    rw [hreply]
    exact ⟨9, _, rfl, rfl⟩
  have hsplit : dev.configReply = (dev.configReply.take 9 :: blocks).flatten := by
    rw [List.flatten_cons, ← hdescr, hreply]
    rfl
  calc walk UInt8.toNat dev.configReply
      = walk UInt8.toNat (dev.configReply.take 9 :: blocks).flatten := congrArg _ hsplit
    _ = some (dev.configReply.take 9 :: blocks) :=
      walk_flatten (List.forall_mem_cons.mpr ⟨hheader, hframed⟩)

end Device

namespace AddTrace

/-- The blob and its tables, by the descriptors placed. -/
structure Laid (t : AddTrace) : Prop where
  descr : t.dev.descr = (counted t.placed).flatten
  fits : t.dev.descr.length ≤ descrCap
  framed : ∀ p ∈ t.placed, Framed UInt8.toNat p.bytes
  counts : ∀ p ∈ t.placed, p.setting ≠ none → 4 < p.bytes.length
  ifalts : t.dev.ifalts = (records 0 t.placed).take ifaltsCap
  distinct : (settings t.placed).Nodup
  nIfnums : t.dev.nIfnums = numInterfaces t.placed
  below : t.dev.nIfnums < 256
  eps : t.dev.eps.length ≤ epsCap

/-- What a host reads as the configuration. -/
structure Described (t : AddTrace) : Prop where
  /-- `wTotalLength` -/
  total : le16 (byteAt t.dev.configReply 2) (byteAt t.dev.configReply 3) =
    t.dev.configReply.length
  /-- Going from one `bLength` to the next meets the header and the descriptors placed, each
  interface's with its number of endpoint descriptors, and ends at the end. -/
  walked : walk UInt8.toNat t.dev.configReply =
    some (t.dev.configReply.take 9 :: counted t.placed)
  /-- No number of endpoint descriptors outgrows its byte. -/
  countable : (addrs t.placed).length < 256
  /-- `bNumInterfaces` -/
  interfaces : (byteAt t.dev.configReply 4).toNat = numInterfaces t.placed
  refused : ∀ desc, (t.dev.addDescriptor desc).2 ≠ usbSuccess →
    (t.dev.addDescriptor desc).1.configReply = t.dev.configReply
  refusedEndpoint : ∀ desc, byteAt desc 1 = usbDtEndpoint → (t.dev.addEndpoint desc).2 = none →
    (t.dev.addEndpoint desc).1.configReply = t.dev.configReply

variable {t t' : AddTrace} {desc : List UInt8}

theorem Laid.new (header : DeviceHeader) : (new header).Laid where
  descr := rfl
  fits := Nat.zero_le _
  framed _ h := nomatch h
  counts _ h := nomatch h
  ifalts := rfl
  distinct := List.nodup_nil
  nIfnums := rfl
  below := Nat.zero_lt_succ _
  eps := Nat.zero_le _

theorem Laid.framed_counted (h : t.Laid) : ∀ b ∈ counted t.placed, Framed UInt8.toNat b := by
  have hframed := h.framed
  generalize t.placed = placed at hframed
  induction placed with
  | nil => exact fun b hb => nomatch hb
  | cons p placed ih =>
    obtain ⟨hp, hplaced⟩ := List.forall_mem_cons.mp hframed
    refine List.forall_mem_cons.mpr ⟨?_, ih hplaced⟩
    cases p with
    | interface ifnum alt bytes => exact hp.set 3 _
    | endpoint | other => exact hp

/-- The blob as it is laid out is what a host reads. -/
theorem Laid.described (h : t.Laid) (hm : t.Mapped) : t.Described := by
  have hlen : t.dev.descr.length ≤ 2048 := h.fits
  have heps : t.dev.eps.length ≤ 128 := h.eps
  have hreply := configReply_eq h.fits
  refine ⟨?_, ?_, ?_, ?_, fun desc hfail => ?_, fun desc kind hfail => ?_⟩
  · rw [hreply]
    simp only [u16le, byteAt, List.cons_append, List.nil_append, List.length_cons,
      List.getD_cons_succ, List.getD_cons_zero]
    rw [le16_u16le (by omega)]
    omega
  · exact walk_configReply h.fits h.descr h.framed_counted
  · rw [← hm.length_eq]
    omega
  · rw [hreply, ← h.nIfnums]
    exact UInt8.toNat_ofNat_of_lt' h.below
  · rw [ne_eq, addDescriptor_success_iff] at hfail
    rw [addDescriptor_refused hfail]
  · have hnot : ¬t.dev.Accepts desc := fun haccepts => by
      rw [addEndpoint_handle kind, if_pos haccepts] at hfail
      cases hfail
    rw [addEndpoint_fst, addDescriptor_refused hnot]

/-- What a caller promises of a descriptor. -/
structure WellFormed (desc : List UInt8) : Prop where
  interface : byteAt desc 1 = usbDtInterface →
    9 ≤ descLen desc ∧ byteAt desc 4 = 0 ∧ byteAt desc 2 ≠ usbipEpNoIfnum
  endpoint : byteAt desc 1 = usbDtEndpoint → 7 ≤ descLen desc
  other : 2 ≤ descLen desc

/-- The interface number and the alternate setting of an interface descriptor. -/
def descSetting (desc : List UInt8) : Option (UInt8 × UInt8) :=
  if byteAt desc 1 = usbDtInterface then some (byteAt desc 2, byteAt desc 3) else none

theorem Laid.length_eq (h : t.Laid) :
    t.dev.descr.length = (t.placed.map Placed.bytes).flatten.length := by
  rw [h.descr, length_counted]

theorem Laid.recordOf_none (h : t.Laid) {ifnum alt : UInt8}
    (hs : (ifnum, alt) ∉ (settings t.placed).take ifaltsCap) :
    t.dev.recordOf ifnum alt = none := by
  rw [recordOf_eq_find?, List.find?_eq_none]
  intro ia hia hmatch
  obtain ⟨hif, halt⟩ := of_decide_eq_true hmatch
  refine hs ?_
  rw [h.ifalts] at hia
  rw [← records_settings 0 t.placed, ← List.map_take]
  exact List.mem_map.mpr ⟨ia, hia, by rw [hif, halt]⟩

theorem Laid.interface (h : t.Laid) (accepted : t.dev.Accepts desc) (hw : WellFormed desc)
    (kind : byteAt desc 1 = usbDtInterface)
    (hnew : (byteAt desc 2, byteAt desc 3) ∉ settings t.placed) :
    Laid { t with
      dev := (t.dev.append desc).appendInterface t.dev.descr.length (byteAt desc 2) (byteAt desc 3)
      placed := t.placed ++ [.interface (byteAt desc 2) (byteAt desc 3) (normalize desc)] } := by
  obtain ⟨hlong, hzero, hnumber⟩ := hw.interface kind
  have hbytes : (normalize desc).set 4 0 = normalize desc := by
    have hget : (normalize desc)[4]? = some (byteAt desc 4) := normalize_getElem? (by omega)
    rw [hzero] at hget
    obtain ⟨hlt, hget⟩ := List.getElem?_eq_some_iff.mp hget
    calc (normalize desc).set 4 0 = (normalize desc).set 4 (normalize desc)[4] := by rw [hget]
      _ = normalize desc := List.set_getElem_self hlt
  have hnone : (t.dev.append desc).ifaltFor (byteAt desc 2) (byteAt desc 3) = none := by
    have hrec := h.recordOf_none fun hs => hnew (List.mem_of_mem_take hs)
    rw [recordOf_eq_find?, List.find?_eq_none] at hrec
    exact List.findIdx?_eq_none_iff.mpr fun ia hia => by simpa using hrec ia hia
  refine ⟨?_, ?_, ?_, ?_, ?_, ?_, ?_, ?_, ?_⟩
  · rw [appendInterface_descr, counted_split (m := []) t.placed rfl (fun q hq => nomatch hq)]
    simp [Device.append, h.descr, Placed.withCount, addrs, hbytes]
  · have := accepted.1
    simpa [Device.append, normalize_length] using this
  · refine List.forall_mem_append.mpr ⟨h.framed, List.forall_mem_singleton.mpr ?_⟩
    exact framed_normalize (by omega)
  · refine List.forall_mem_append.mpr ⟨h.counts, List.forall_mem_singleton.mpr fun _ => ?_⟩
    rw [Placed.bytes, normalize_length]
    omega
  · rw [appendInterface_ifalts hnone, records_append, ← h.length_eq, Nat.zero_add]
    have hifalts : (t.dev.append desc).ifalts = (records 0 t.placed).take ifaltsCap := h.ifalts
    rw [hifalts, List.length_take]
    split
    · rw [List.take_of_length_le (by omega), List.take_of_length_le]
      · rfl
      · rw [List.length_append]
        simp only [records, List.length_singleton]
        omega
    · rw [List.take_append_of_le_length (by omega)]
  · rw [settings_concat, List.nodup_append]
    refine ⟨h.distinct, List.nodup_cons.mpr ⟨List.not_mem_nil, List.nodup_nil⟩, ?_⟩
    rintro s hs s' hs' rfl
    exact hnew (List.mem_singleton.mp hs' ▸ hs)
  · rw [appendInterface_nIfnums, numInterfaces, settings_concat, List.foldl_append]
    exact congrArg (max · _) h.nIfnums
  · have hlt := UInt8.toNat_lt (byteAt desc 2)
    have hne : (byteAt desc 2).toNat ≠ 255 := fun h255 => hnumber (UInt8.toNat_inj.mp h255)
    have hbelow : (t.dev.append desc).nIfnums < 256 := h.below
    rw [appendInterface_nIfnums]
    omega
  · simpa [Device.append] using h.eps

theorem Laid.other (h : t.Laid) (accepted : t.dev.Accepts desc) (hw : WellFormed desc) :
    Laid { t with dev := t.dev.append desc, placed := t.placed ++ [.other (normalize desc)] } := by
  have hlen := hw.other
  refine ⟨?_, ?_, ?_, ?_, ?_, ?_, ?_, h.below, h.eps⟩
  · rw [counted_concat_other _ rfl rfl, List.flatten_append, ← h.descr]
    simp [Device.append, Placed.bytes]
  · have := accepted.1
    simpa [Device.append, normalize_length] using this
  · exact List.forall_mem_append.mpr ⟨h.framed, List.forall_mem_singleton.mpr
      (framed_normalize (by omega))⟩
  · exact List.forall_mem_append.mpr ⟨h.counts, List.forall_mem_singleton.mpr
      fun hs => absurd rfl hs⟩
  · rw [records_append, records_of_none _ (List.forall_mem_singleton.mpr rfl), List.append_nil]
    exact h.ifalts
  · rw [settings_concat_none _ rfl]
    exact h.distinct
  · rw [numInterfaces, settings_concat_none _ rfl]
    exact h.nIfnums

/-- The last interface descriptor has a record as long as the table has room. -/
theorem Laid.recordOf_last (h : t.Laid) {before after : List Placed} {ifnum alt : UInt8}
    {bytes : List UInt8} (hplaced : t.placed = before ++ .interface ifnum alt bytes :: after)
    (hrec : (settings t.placed).length ≤ ifaltsCap) :
    t.dev.recordOf ifnum alt = some ⟨ifnum, alt, (counted before).flatten.length⟩ := by
  have hdistinct := h.distinct
  rw [hplaced, settings, List.filterMap_append] at hdistinct
  have hbefore : (records 0 before).find? (fun ia => ia.ifnum = ifnum ∧ ia.alt = alt) = none := by
    rw [List.find?_eq_none]
    intro ia hia hmatch
    obtain ⟨hif, halt⟩ := of_decide_eq_true hmatch
    have hmem : (ifnum, alt) ∈ settings before := by
      rw [← records_settings 0 before]
      exact List.mem_map.mpr ⟨ia, hia, by rw [hif, halt]⟩
    exact (List.nodup_append.mp hdistinct).2.2 _ hmem _ List.mem_cons_self rfl
  rw [recordOf_eq_find?, h.ifalts, List.take_of_length_le (by rw [length_records]; exact hrec),
    hplaced, records_append, List.find?_append, hbefore, Option.none_or, records,
    List.find?_cons_of_pos (by simp), Nat.zero_add, length_counted]

theorem Laid.recordOf_full (h : t.Laid) {before after : List Placed} {ifnum alt : UInt8}
    {bytes : List UInt8} (hplaced : t.placed = before ++ .interface ifnum alt bytes :: after)
    (hafter : ∀ p ∈ after, p.setting = none) (hfull : ifaltsCap < (settings t.placed).length) :
    t.dev.recordOf ifnum alt = none := by
  have hsettings : settings t.placed = settings before ++ [(ifnum, alt)] := by
    rw [hplaced, settings, List.filterMap_append, List.filterMap_cons]
    exact congrArg (fun l => settings before ++ (ifnum, alt) :: l) (settings_of_none hafter)
  have hdistinct := h.distinct
  rw [hsettings, List.length_append, List.length_singleton] at hfull
  rw [hsettings] at hdistinct
  refine h.recordOf_none fun hmem => ?_
  rw [hsettings, List.take_append_of_le_length (by omega)] at hmem
  exact (List.nodup_append.mp hdistinct).2.2 _ (List.mem_of_mem_take hmem) _ List.mem_cons_self rfl

section attach

variable {dev : Device} {ep : Ep}

theorem patched_descr (dev : Device) (desc : List UInt8) (addr : UInt8) :
    (dev.append desc).descr.set (dev.descr.length + 2) addr =
      dev.descr ++ (normalize desc).set 2 addr := by
  rw [Device.append, List.set_append_right _ _ (by omega), Nat.add_sub_cancel_left]

theorem attach_uncounted (h : ∀ s, dev.cur = some s → dev.recordOf s.1 s.2 = none) :
    ((dev.append desc).attachEndpoint dev.descr.length ep).descr =
      dev.descr ++ (normalize desc).set 2 ep.addr := by
  have h' : ∀ s, ((dev.append desc).enterEndpoint dev.descr.length ep).cur = some s →
      ((dev.append desc).enterEndpoint dev.descr.length ep).recordOf s.1 s.2 = none := h
  rw [attachEndpoint, countEndpoint_of_none h']
  exact patched_descr dev desc ep.addr

theorem attach_counted {ifnum alt : UInt8} {off : Nat} (hcur : dev.cur = some (ifnum, alt))
    (hrec : dev.recordOf ifnum alt = some ⟨ifnum, alt, off⟩) :
    ((dev.append desc).attachEndpoint dev.descr.length ep).descr =
      (dev.descr ++ (normalize desc).set 2 ep.addr).modify (off + 4) (· + 1) := by
  have hcur' : ((dev.append desc).enterEndpoint dev.descr.length ep).cur = some (ifnum, alt) := hcur
  rw [attachEndpoint, countEndpoint_descr hcur' hrec]
  exact congrArg (·.modify (off + 4) (· + 1)) (patched_descr dev desc ep.addr)

end attach

/-- The interface that an endpoint goes to is the last one placed. -/
theorem exists_split_of_cur (hn : t.Numbered) {ifnum alt : UInt8}
    (hcur : t.dev.cur = some (ifnum, alt)) : ∃ before bytes after,
      t.placed = before ++ .interface ifnum alt bytes :: after ∧
        ∀ p ∈ after, p.setting = none := by
  obtain ⟨before, p, after, hplaced, hp, hafter⟩ :=
    exists_split_of_lastHead (hn.current.symm.trans hcur)
  cases p with
  | interface i a bytes =>
    cases hp
    exact ⟨before, bytes, after, hplaced, hafter⟩
  | endpoint | other => cases hp

/-- The count of the last interface descriptor when an endpoint descriptor follows. -/
theorem counted_concat_endpoint {before after : List Placed} {ifnum alt addr : UInt8}
    {bytes b : List UInt8} (hafter : ∀ p ∈ after, p.setting = none) :
    counted (before ++ .interface ifnum alt bytes :: after ++ [.endpoint addr b]) =
      counted before ++ bytes.set 4 ((addrs after).length + 1).toUInt8 ::
        (after.map Placed.bytes ++ [b]) := by
  rw [List.append_assoc, List.cons_append, counted_split before rfl (List.forall_mem_append.mpr
    ⟨hafter, List.forall_mem_singleton.mpr rfl⟩), addrs_concat, List.map_append, List.length_append]
  rfl

/-- An endpoint descriptor is counted where it belongs, as long as the table has room. -/
theorem Laid.endpoint_descr (h : t.Laid) (hn : t.Numbered)
    (hrec : (settings t.placed).length ≤ ifaltsCap) (desc : List UInt8) (ep : Ep) :
    ((t.dev.append desc).attachEndpoint t.dev.descr.length ep).descr =
      (counted (t.placed ++ [.endpoint ep.addr ((normalize desc).set 2 ep.addr)])).flatten := by
  cases hcur : t.dev.cur with
  | none =>
    have hnone := lastHead_eq_none.mp (hn.current.symm.trans hcur)
    have hnorec : ∀ s, t.dev.cur = some s → t.dev.recordOf s.1 s.2 = none :=
      fun s hs => nomatch hcur.symm.trans hs
    rw [attach_uncounted hnorec, h.descr, counted_of_none hnone, counted_of_none
      (List.forall_mem_append.mpr ⟨hnone, List.forall_mem_singleton.mpr rfl⟩), List.map_append,
      List.flatten_append]
    simp [Placed.bytes]
  | some s =>
    obtain ⟨before, bytes, after, hplaced, hafter⟩ := exists_split_of_cur hn hcur
    have hlong : 4 < (bytes.set 4 (addrs after).length.toUInt8).length := by
      rw [List.length_set]
      exact h.counts (.interface s.1 s.2 bytes) (by rw [hplaced]; simp) (Option.some_ne_none _)
    have hcounted : counted t.placed = counted before ++
        bytes.set 4 (addrs after).length.toUInt8 :: after.map Placed.bytes := by
      rw [hplaced, counted_split before rfl hafter]
      rfl
    rw [attach_counted hcur (h.recordOf_last hplaced hrec), h.descr, hcounted, hplaced,
      counted_concat_endpoint hafter]
    simp only [List.flatten_append, List.flatten_cons, List.append_assoc]
    rw [← List.append_assoc, modify_within _ _ _ _ hlong, modify_set_self]
    have hsucc : (addrs after).length.toUInt8 + 1 = ((addrs after).length + 1).toUInt8 :=
      (UInt8.ofNat_add _ 1).symm
    rw [hsucc]
    simp only [List.append_assoc, List.flatten_nil, List.append_nil]

theorem Laid.endpoint (h : t.Laid) (hn : t.Numbered) (accepted : t.dev.Accepts desc)
    (hw : WellFormed desc) (kind : byteAt desc 1 = usbDtEndpoint)
    (hrec : (settings t.placed).length ≤ ifaltsCap) (ep : Ep) :
    Laid { t with
      dev := (t.dev.append desc).attachEndpoint t.dev.descr.length ep
      placed := t.placed ++ [.endpoint ep.addr ((normalize desc).set 2 ep.addr)] } := by
  have hlen := hw.other
  refine ⟨h.endpoint_descr hn hrec desc ep, ?_, ?_, ?_, ?_, ?_, ?_, ?_, ?_⟩
  · have := accepted.1
    simpa [attachEndpoint, enterEndpoint, Device.append, normalize_length] using this
  · exact List.forall_mem_append.mpr ⟨h.framed, List.forall_mem_singleton.mpr
      ((framed_normalize (by omega)).set 1 _)⟩
  · exact List.forall_mem_append.mpr ⟨h.counts, List.forall_mem_singleton.mpr
      fun hs => absurd rfl hs⟩
  · rw [records_append, records_of_none _ (List.forall_mem_singleton.mpr rfl), List.append_nil,
      attachEndpoint, countEndpoint_ifalts]
    exact h.ifalts
  · rw [settings_concat_none _ rfl]
    exact h.distinct
  · rw [numInterfaces, settings_concat_none _ rfl, attachEndpoint, countEndpoint_nIfnums]
    exact h.nIfnums
  · rw [attachEndpoint, countEndpoint_nIfnums]
    exact h.below
  · rw [attachEndpoint_eps, List.length_append]
    exact (accepted.2 kind).1

/-- An endpoint of an interface that has no record is missing from the count. -/
theorem Laid.not_described (h : t.Laid) (hn : t.Numbered) (accepted : t.dev.Accepts desc)
    (hw : WellFormed desc) (hfull : ifaltsCap < (settings t.placed).length) (ep : Ep) :
    ¬Described { t with
      dev := (t.dev.append desc).attachEndpoint t.dev.descr.length ep
      placed := t.placed ++ [.endpoint ep.addr ((normalize desc).set 2 ep.addr)] } := by
  intro hd
  have hlen := hw.other
  cases hcur : t.dev.cur with
  | none =>
    have hnone := settings_of_none (lastHead_eq_none.mp (hn.current.symm.trans hcur))
    rw [hnone] at hfull
    exact absurd hfull (Nat.not_lt_zero _)
  | some s =>
    obtain ⟨before, bytes, after, hplaced, hafter⟩ := exists_split_of_cur hn hcur
    have hnorec : ∀ s', t.dev.cur = some s' → t.dev.recordOf s'.1 s'.2 = none := by
      intro s' hs'
      cases hcur.symm.trans hs'
      exact h.recordOf_full hplaced hafter hfull
    have hdescr : ((t.dev.append desc).attachEndpoint t.dev.descr.length ep).descr =
        t.dev.descr ++ (normalize desc).set 2 ep.addr := attach_uncounted hnorec
    have hframed : Framed UInt8.toNat ((normalize desc).set 2 ep.addr) :=
      (framed_normalize (by omega)).set 1 _
    have hfits : ((t.dev.append desc).attachEndpoint t.dev.descr.length ep).descr.length ≤
        descrCap := by
      have := accepted.1
      rw [hdescr]
      simpa [normalize_length] using this
    have hwalk := walk_configReply hfits
      (show _ = (counted t.placed ++ [(normalize desc).set 2 ep.addr]).flatten by
        rw [hdescr, h.descr]; simp)
      (List.forall_mem_append.mpr ⟨h.framed_counted, List.forall_mem_singleton.mpr hframed⟩)
    have hblocks := hwalk.symm.trans hd.walked
    rw [Option.some.injEq, List.cons.injEq, hplaced, counted_concat_endpoint hafter,
      counted_split before rfl hafter] at hblocks
    obtain ⟨-, htail⟩ := hblocks
    rw [List.append_assoc, List.cons_append] at htail
    have hcount := (List.cons.inj (List.append_cancel_left htail)).1
    have hlong : 4 < bytes.length :=
      h.counts (.interface s.1 s.2 bytes) (by rw [hplaced]; simp) (Option.some_ne_none _)
    have hbyte := congrArg (·[4]?) hcount
    simp only [Placed.withCount, List.getElem?_set_self hlong, Option.some.injEq] at hbyte
    have := congrArg UInt8.toNat hbyte
    simp only [Nat.toUInt8_eq, UInt8.toNat_ofNat'] at this
    omega

/-- What a caller of these calls promises: descriptors are well formed, and each interface
descriptor has a setting of its own. -/
structure WellFormedCalls (acts : List AddAct) : Prop where
  desc : ∀ act ∈ acts, ∀ desc ∈ act.desc, WellFormed desc
  settings : (acts.filterMap fun act => act.desc.bind descSetting).Nodup

/-- The same of one call, when some descriptors have been placed. -/
def WellFormedCall (t : AddTrace) (act : AddAct) : Prop :=
  ∀ desc ∈ act.desc, WellFormed desc ∧ ∀ s ∈ descSetting desc, s ∉ Usbip.settings t.placed

/-- A call places no setting but its own. -/
theorem settings_apply (t : AddTrace) (act : AddAct) {s : UInt8 × UInt8}
    (h : s ∈ settings (t.apply act).placed) :
    s ∈ settings t.placed ∨ act.desc.bind descSetting = some s := by
  cases act with
  | reserveEndpoint wantAddr => exact .inl h
  | addDescriptor desc | addEndpoint desc =>
    have hs := t.add_step desc
    rw [apply] at h
    generalize t.add desc = t' at hs h
    cases hs with
    | refused => exact .inl h
    | interface _ kind =>
      rw [settings_concat, List.mem_append] at h
      refine h.imp_right fun hs => ?_
      rw [List.mem_singleton.mp hs]
      exact if_pos kind
    | endpoint | other =>
      rw [settings_concat_none _ rfl] at h
      exact .inl h

theorem guarded_of_wellFormed {acts : List AddAct} (h : WellFormedCalls acts) {t : AddTrace}
    (hnew : ∀ act ∈ acts, ∀ s, act.desc.bind descSetting = some s → s ∉ settings t.placed) :
    Guarded step WellFormedCall t acts := by
  induction acts generalizing t with
  | nil => trivial
  | cons act acts ih =>
    obtain ⟨hdesc, hnodup⟩ := h
    obtain ⟨hact, hacts⟩ := List.forall_mem_cons.mp hdesc
    obtain ⟨hnewact, hnewacts⟩ := List.forall_mem_cons.mp hnew
    refine ⟨fun desc hd => ⟨hact desc hd, fun s hs => hnewact s ?_⟩, fun t' hs => ?_⟩
    · rw [Option.mem_def.mp hd]
      exact hs
    · cases hs
      have hrest : (acts.filterMap fun act => act.desc.bind descSetting).Nodup := by
        rw [List.filterMap_cons] at hnodup
        split at hnodup
        · exact hnodup
        · exact (List.nodup_cons.mp hnodup).2
      refine ih ⟨hacts, hrest⟩ fun a ha s hs hmem => ?_
      rcases settings_apply t act hmem with hmem | hown
      · exact hnewacts a ha s hs hmem
      · rw [List.filterMap_cons, hown] at hnodup
        exact (List.nodup_cons.mp hnodup).1 (List.mem_filterMap.mpr ⟨a, ha, hs⟩)

/-- An endpoint descriptor is accepted only while the table of interface descriptors has a record
for each of them. -/
def Recorded (t : AddTrace) (act : AddAct) : Prop :=
  ∀ desc ∈ act.desc, byteAt desc 1 = usbDtEndpoint → t.dev.Accepts desc →
    (settings t.placed).length ≤ ifaltsCap

/-- What the record and the blob keep. -/
structure Configured (t : AddTrace) : Prop where
  numbered : t.Numbered
  mapped : t.Mapped
  laid : t.Laid

theorem Configured.new (header : DeviceHeader) : (new header).Configured :=
  ⟨.new header, .new header, .new header⟩

theorem Configured.add (h : t.Configured) (hs : AddStep t desc t') (hw : WellFormed desc)
    (hnew : ∀ s ∈ descSetting desc, s ∉ settings t.placed)
    (hrec : byteAt desc 1 = usbDtEndpoint → t.dev.Accepts desc →
      (settings t.placed).length ≤ ifaltsCap) : t'.Configured := by
  refine ⟨h.numbered.add hs, h.mapped.add h.numbered hs, ?_⟩
  cases hs with
  | refused => exact h.laid
  | interface accepted kind => exact h.laid.interface accepted hw kind (hnew _ (if_pos kind))
  | endpoint accepted kind _ _ attached =>
    subst attached
    exact h.laid.endpoint h.numbered accepted hw kind (hrec kind accepted) _
  | other accepted => exact h.laid.other accepted hw

theorem Configured.reserve {wantAddr : UInt8} (h : t.Configured) :
    (t.reserve wantAddr).Configured := by
  refine ⟨h.numbered.apply (.reserveEndpoint wantAddr),
    h.mapped.apply h.numbered (.reserveEndpoint wantAddr), ?_⟩
  have hs := t.reserve_step wantAddr
  generalize t.reserve wantAddr = t' at hs
  cases hs with
  | refused => exact h.laid
  | reserved =>
    have hl := h.laid
    exact ⟨hl.descr, hl.fits, hl.framed, hl.counts, hl.ifalts, hl.distinct, hl.nIfnums, hl.below,
      hl.eps⟩

/-- In every run of calls on a new device, the host reads the descriptors placed, with all the
lengths and counts right, if and only if no endpoint descriptor is accepted while there are more
interface descriptors than the table has records. -/
theorem described_iff_recorded (header : DeviceHeader) {acts : List AddAct}
    (h : WellFormedCalls acts) :
    Throughout step Described (new header) acts ↔ Guarded step Recorded (new header) acts := by
  have hexec : ∀ (t : AddTrace) acts, ∃ u, exec step t acts = some u := by
    intro t acts
    induction acts generalizing t with
    | nil => exact ⟨t, rfl⟩
    | cons act acts ih => exact ih (t.apply act)
  obtain ⟨u, hu⟩ := hexec (new header) acts
  refine throughout_iff_guarded_of (I := Configured) (D := WellFormedCall)
    (fun t hi => hi.laid.described hi.mapped) (fun t act t' hi hw hrec hs => ?_)
    (fun t act t' hi hw hrec hs hd => hrec fun desc hdesc kind accepted => ?_) (.new header)
    (guarded_of_wellFormed h fun _ _ _ _ hmem => nomatch hmem) hu
  · cases hs
    cases act with
    | addDescriptor desc | addEndpoint desc =>
      obtain ⟨hwell, hnew⟩ := hw desc rfl
      exact hi.add (t.add_step desc) hwell hnew (hrec desc rfl)
    | reserveEndpoint wantAddr => exact hi.reserve
  · cases hs
    obtain ⟨hwell, -⟩ := hw desc hdesc
    by_contra hfull
    have hadd : t.apply act = t.add desc := by cases act <;> cases hdesc <;> rfl
    rw [hadd] at hd
    have hs := t.add_step desc
    generalize t.add desc = t' at hs hd
    cases hs with
    | refused hnot => exact hnot accepted
    | interface _ hif => exact absurd (hif.symm.trans kind) (by decide)
    | other _ _ hep => exact hep kind
    | endpoint _ _ _ _ attached =>
      subst attached
      exact hi.laid.not_described hi.numbered accepted hwell (Nat.lt_of_not_le hfull) _ hd

/-- Sixty-five alternate settings, and an endpoint in the last one. -/
def fullRun : List AddAct :=
  (List.range 65).map (fun alt => .addDescriptor (interfaceDesc 0 alt.toUInt8)) ++
    [.addEndpoint (endpointDesc 0x81)]

instance : DecidablePred WellFormed := fun desc =>
  decidable_of_iff
    ((byteAt desc 1 = usbDtInterface →
        9 ≤ descLen desc ∧ byteAt desc 4 = 0 ∧ byteAt desc 2 ≠ usbipEpNoIfnum) ∧
      (byteAt desc 1 = usbDtEndpoint → 7 ≤ descLen desc) ∧ 2 ≤ descLen desc)
    ⟨fun h => ⟨h.1, h.2.1, h.2.2⟩, fun h => ⟨h.interface, h.endpoint, h.other⟩⟩

instance : DecidablePred WellFormedCalls := fun acts =>
  have (act : AddAct) : Decidable (∀ desc ∈ act.desc, WellFormed desc) :=
    Option.decidableForallMem act.desc
  decidable_of_iff ((∀ act ∈ acts, ∀ desc ∈ act.desc, WellFormed desc) ∧
      (acts.filterMap fun act => act.desc.bind descSetting).Nodup)
    ⟨fun h => ⟨h.1, h.2⟩, fun h => ⟨h.desc, h.settings⟩⟩

/-- The endpoint is missing from the count of its interface descriptor. -/
theorem described_fails :
    ¬∀ header acts, WellFormedCalls acts → Throughout step Described (new header) acts := by
  intro h
  have hmissed : ((exec step (new ⟨0, 0, 0, 0, 0, 0, 0, 0, 0⟩) fullRun).map fun t =>
      decide (walk UInt8.toNat t.dev.configReply =
        some (t.dev.configReply.take 9 :: counted t.placed))) = some false := by decide +kernel
  obtain ⟨t, ht, hwalk⟩ := Option.map_eq_some_iff.mp hmissed
  have hwell : WellFormedCalls fullRun := by decide +kernel
  exact of_decide_eq_false hwalk ((h _ fullRun hwell).last ht).walked

theorem described_iff_on_sharedRun :
    Throughout step Described (new ⟨0, 0, 0, 0, 0, 0, 0, 0, 0⟩) sharedRun ↔
      Guarded step Recorded (new ⟨0, 0, 0, 0, 0, 0, 0, 0, 0⟩) sharedRun :=
  described_iff_recorded _ (by decide)

end AddTrace

end Usbip
