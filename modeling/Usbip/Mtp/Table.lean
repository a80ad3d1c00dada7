import Usbip.Lib.Paths
import Usbip.Mtp.Objects

/-! The object table as a map from stores and paths: what `obj_by_path` finds after an `obj_upsert`,
and what of the table an upsert keeps. -/

namespace Usbip.Mtp

open Lib

theorem length_snprintf_le (size : Nat) (s : CStr) : (snprintf size s).length ≤ size - 1 := by
  rw [snprintf, List.length_take]
  exact min_le_left _ _

theorem snprintf_of_lt {size : Nat} {s : CStr} (h : s.length < size) : snprintf size s = s :=
  List.take_of_length_le (by omega)

theorem pathJoin_eq (size : Nat) (dir name : CStr) :
    pathJoin size dir name = snprintf size (joinPath slash dir name) := by
  cases dir <;> rfl

theorem pathJoin_of_lt {size : Nat} {dir name : CStr}
    (h : (joinPath slash dir name).length < size) : pathJoin size dir name = joinPath slash dir name := by
  rw [pathJoin_eq, snprintf_of_lt h]

theorem length_pathJoin_lt {size : Nat} (h : 0 < size) (dir name : CStr) :
    (pathJoin size dir name).length < size := by
  have := length_snprintf_le size (joinPath slash dir name)
  rw [pathJoin_eq]
  omega

/-! ### Handles -/

/-- Handles are given in order, from 1 on. -/
structure Numbered (objs : List Obj) (nextHandle : UInt32) : Prop where
  handles : objs.map Obj.handle = (List.range objs.length).map fun i => UInt32.ofNat (i + 1)
  next : nextHandle = UInt32.ofNat (objs.length + 1)

namespace Numbered

variable {objs : List Obj} {nextHandle : UInt32}

theorem nil : Numbered [] 1 := ⟨rfl, rfl⟩

theorem nodup (h : Numbered objs nextHandle) (hlen : objs.length < 2 ^ 32) :
    (objs.map Obj.handle).Nodup := by
  rw [h.handles]
  refine List.Nodup.map_on (fun i hi j hj hij => ?_) List.nodup_range
  rw [List.mem_range] at hi hj
  have := congrArg UInt32.toNat hij
  rw [UInt32.toNat_ofNat', UInt32.toNat_ofNat'] at this
  omega

theorem eq_of_handle (h : Numbered objs nextHandle) (hlen : objs.length < 2 ^ 32) {o o' : Obj}
    (ho : o ∈ objs) (ho' : o' ∈ objs) (heq : o.handle = o'.handle) : o = o' :=
  List.inj_on_of_nodup_map (h.nodup hlen) ho ho' heq

theorem ne_zero (h : Numbered objs nextHandle) (hlen : objs.length < 2 ^ 32) {o : Obj}
    (ho : o ∈ objs) : o.handle ≠ 0 := by
  have hmem := List.mem_map_of_mem (f := Obj.handle) ho
  rw [h.handles] at hmem
  obtain ⟨i, hi, heq⟩ := List.mem_map.mp hmem
  rw [List.mem_range] at hi
  rintro h0
  have := congrArg UInt32.toNat (heq.trans h0)
  rw [UInt32.toNat_ofNat', UInt32.toNat_zero] at this
  omega

/-- Handles are all that the numbering sees. -/
theorem of_map {objs' : List Obj} (h : Numbered objs nextHandle)
    (hmap : objs'.map Obj.handle = objs.map Obj.handle) : Numbered objs' nextHandle := by
  have hlen : objs'.length = objs.length := by
    rw [← List.length_map (f := Obj.handle), hmap, List.length_map]
  exact ⟨by rw [hmap, hlen]; exact h.handles, by rw [hlen]; exact h.next⟩

theorem concat (h : Numbered objs nextHandle) {o : Obj} (ho : o.handle = nextHandle) :
    Numbered (objs ++ [o]) (nextHandle + 1) := by
  constructor
  · rw [List.map_append, h.handles, List.length_append, List.length_singleton, List.range_succ,
      List.map_append, List.map_singleton, List.map_singleton, ho, h.next]
  · rw [h.next, List.length_append, List.length_singleton]
    apply UInt32.toNat_inj.mp
    simp [UInt32.toNat_add]

end Numbered

/-! ### An upsert -/

section
variable {objs : List Obj} {nextHandle : UInt32} {si : Nat} {full name : CStr} {parent : UInt32}
  {info : Info}

/-- The handle, the store and the path of an entry. -/
def Obj.key (o : Obj) : UInt32 × Nat × CStr := (o.handle, o.si, o.path)

/-- The entry that an upsert writes. -/
def upserted (objs : List Obj) (nextHandle : UInt32) (si : Nat) (full name : CStr)
    (parent : UInt32) (info : Info) : Obj :=
  ((objByPath objs si full).getD (.fresh nextHandle si full)).fill name parent info

theorem Obj.at_iff {o : Obj} {si : Nat} {path : CStr} :
    o.at si path = true ↔ o.si = si ∧ o.path = path := by
  rw [Obj.at, decide_eq_true_iff]

@[simp] theorem Obj.at_fill (o : Obj) (si : Nat) (path name : CStr) (parent : UInt32) (info : Info) :
    (o.fill name parent info).at si path = o.at si path := rfl

@[simp] theorem Obj.key_fill (o : Obj) (name : CStr) (parent : UInt32) (info : Info) :
    (o.fill name parent info).key = o.key := rfl

theorem objByPath_some {o : Obj} (h : objByPath objs si full = some o) :
    o ∈ objs ∧ o.si = si ∧ o.path = full :=
  ⟨List.mem_of_find?_eq_some h,
    Obj.at_iff.mp (List.find?_some (p := fun o : Obj => o.at si full) h)⟩

theorem objByHandle_some {h : UInt32} {o : Obj} (ho : objByHandle objs h = some o) :
    o ∈ objs ∧ o.alive = true ∧ o.handle = h := by
  have := List.find?_some ho
  rw [Bool.and_eq_true, beq_iff_eq] at this
  exact ⟨List.mem_of_find?_eq_some ho, this⟩

theorem objByHandle_of_mem {objs : List Obj} {nextHandle : UInt32} (h : Numbered objs nextHandle)
    (hlen : objs.length < 2 ^ 32) {o : Obj} (ho : o ∈ objs) (halive : o.alive = true) :
    objByHandle objs o.handle = some o := by
  cases hd : objByHandle objs o.handle with
  | none =>
    have := List.find?_eq_none.mp hd o ho
    simp [halive] at this
  | some d =>
    obtain ⟨hmem, -, hhandle⟩ := objByHandle_some hd
    rw [h.eq_of_handle hlen hmem ho hhandle]

theorem objUpsert_handle :
    (objUpsert objs nextHandle si full name parent info).2.2 =
      (upserted objs nextHandle si full name parent info).handle := by
  unfold objUpsert upserted
  split
  · next o ho => rw [ho]; rfl
  · next ho => rw [ho]; rfl

theorem upserted_at (hfull : full.length < 4096) :
    (upserted objs nextHandle si full name parent info).si = si ∧
      (upserted objs nextHandle si full name parent info).path = full := by
  unfold upserted
  cases ho : objByPath objs si full with
  | none => exact ⟨rfl, snprintf_of_lt hfull⟩
  | some o => exact (objByPath_some ho).2

/-- A look-up after an upsert. -/
theorem objByPath_objUpsert (objs : List Obj) (nextHandle : UInt32) (si : Nat) (name : CStr)
    (parent : UInt32) (info : Info) (hfull : full.length < 4096) (si' : Nat) (path : CStr) :
    objByPath (objUpsert objs nextHandle si full name parent info).1 si' path =
      if si' = si ∧ path = full then some (upserted objs nextHandle si full name parent info)
      else objByPath objs si' path := by
  unfold objUpsert
  cases ho : objByPath objs si full with
  | some o =>
    dsimp only
    split
    · next h =>
      obtain ⟨rfl, rfl⟩ := h
      rw [objByPath, find?_modifyFirst_self fun o => Obj.at_fill o si' path name parent info,
        ← objByPath, ho, upserted, ho]
      rfl
    · next h =>
      refine find?_modifyFirst_of_ne (fun o hat => ?_) objs
      have hne : o.at si' path = false := by
        rw [Bool.eq_false_iff]
        intro hat'
        rw [Obj.at_iff] at hat hat'
        exact h ⟨hat'.1.symm.trans hat.1, hat'.2.symm.trans hat.2⟩
      exact ⟨hne, hne⟩
  | none =>
    have hnew : ((Obj.fresh nextHandle si full).fill name parent info).at si' path =
        decide (si' = si ∧ path = full) := by
      rw [Obj.at_fill, Obj.at]
      simp only [Obj.fresh, snprintf_of_lt hfull, eq_comm]
    rw [objByPath, List.find?_append, List.find?_singleton, hnew, ← objByPath, upserted, ho]
    by_cases h : si' = si ∧ path = full
    · rw [if_pos h, decide_eq_true h, h.1, h.2, ho]
      rfl
    · rw [if_neg h, decide_eq_false h]
      exact Option.or_none

/-- An upsert keeps the keys of the entries, and may add one. -/
theorem objUpsert_keys :
    objs.map Obj.key <+: (objUpsert objs nextHandle si full name parent info).1.map Obj.key := by
  unfold objUpsert
  split
  · exact ⟨[], by rw [List.append_nil, map_modifyFirst fun o => Obj.key_fill o name parent info]⟩
  · exact ⟨_, (List.map_append ..).symm⟩

theorem Numbered.objUpsert (h : Numbered objs nextHandle) :
    Numbered (objUpsert objs nextHandle si full name parent info).1
      (objUpsert objs nextHandle si full name parent info).2.1 := by
  unfold Mtp.objUpsert
  split
  · exact h.of_map (map_modifyFirst (fun o => (rfl : (o.fill name parent info).handle = _)) objs)
  · exact h.concat rfl

/-- An entry of the table after an upsert is the one that it writes, or was there before. -/
theorem mem_objUpsert {o : Obj} (h : o ∈ (objUpsert objs nextHandle si full name parent info).1) :
    o = upserted objs nextHandle si full name parent info ∨ o ∈ objs := by
  unfold objUpsert at h
  unfold upserted
  cases ho : objByPath objs si full with
  | some o' =>
    rw [ho] at h
    exact mem_of_mem_modifyFirst (f := fun o => Obj.fill o name parent info) ho h
  | none =>
    rw [ho] at h
    exact (List.mem_append.mp h).symm.imp_left fun h => List.mem_singleton.mp h

/-- Every alive entry is the first with its path. -/
def Firsts (objs : List Obj) : Prop :=
  ∀ o ∈ objs, o.alive = true → objByPath objs o.si o.path = some o

/-- An upsert of a path with no alive entry. -/
theorem Firsts.objUpsert (h : Firsts objs) (hfull : full.length < 4096)
    (hdead : ∀ o, objByPath objs si full = some o → o.alive = false) :
    Firsts (objUpsert objs nextHandle si full name parent info).1 := by
  intro o ho halive
  rw [objByPath_objUpsert _ _ _ _ _ _ hfull]
  rcases mem_objUpsert ho with rfl | ho
  · rw [if_pos (upserted_at hfull)]
  · have hfirst := h o ho halive
    split
    · next hat =>
      rw [hat.1, hat.2] at hfirst
      exact absurd (hdead o hfirst) (by simp [halive])
    · exact hfirst

end

end Usbip.Mtp
