import Usbip.Mtp.Slices

/-! The list of object properties as a host reads it: a count and the quadruples, each with a value
that its datatype tells the size of. -/

namespace Usbip.Mtp

open Lib Control
open Device (u16le)

/-! ### Reading a list -/

/-- A handle, a property, its datatype and its value. -/
@[ext] structure Quad where
  handle : UInt32
  code : UInt16
  datatype : UInt16
  value : List UInt8
  deriving DecidableEq, Repr

/-- How many bytes a value takes at the front of some bytes. A string begins with the number of its
characters. -/
def valueSize (datatype : UInt16) (bytes : List UInt8) : Option Nat :=
  if datatype = tU16 then some 2
  else if datatype = tU32 then some 4
  else if datatype = tU64 then some 8
  else if datatype = tU128 then some 16
  else if datatype = tStr then bytes.head?.map fun count => 1 + 2 * count.toNat
  else none

/-- A quadruple off the front. -/
def parseQuad (bytes : List UInt8) : Option (Quad × List UInt8) :=
  let rest := bytes.drop 8
  match valueSize (getLe16 (bytes.drop 6)) rest with
  | none => none
  | some n =>
    if rest.length < n then none
    else some (⟨getLe32 bytes, getLe16 (bytes.drop 4), getLe16 (bytes.drop 6), rest.take n⟩,
      rest.drop n)

/-- As many quadruples as there should be, with nothing left over. -/
def parseBody (count : Nat) (body : List UInt8) : Option (List Quad) :=
  (decodeMany (fun (_ : Unit) => parseQuad) (List.replicate count ()) body).bind fun read =>
    if read.2 = [] then some read.1 else none

def parseQuads (dataset : List UInt8) : Option (List Quad) :=
  parseBody (getLe32 dataset).toNat (dataset.drop 4)

/-- A quadruple as it is written. -/
def Quad.bytes (q : Quad) : List UInt8 :=
  u32le q.handle ++ u16le q.code ++ u16le q.datatype ++ q.value

/-- A list as it is written. -/
def listBytes (quads : List Quad) : List UInt8 :=
  u32le (UInt32.ofNat quads.length) ++ quads.flatMap Quad.bytes

/-- The value has the size that its datatype tells. -/
def Quad.Sized (q : Quad) : Prop := ∀ rest, valueSize q.datatype (q.value ++ rest) = some q.value.length

theorem parseQuad_bytes {q : Quad} (h : q.Sized) (rest : List UInt8) :
    parseQuad (q.bytes ++ rest) = some (q, rest) := by
  have hhandle : getLe32 (q.bytes ++ rest) = q.handle :=
    getLe32_u32le q.handle (u16le q.code ++ (u16le q.datatype ++ (q.value ++ rest)))
  have hcode : getLe16 ((q.bytes ++ rest).drop 4) = q.code :=
    getLe16_u16le q.code (u16le q.datatype ++ (q.value ++ rest))
  have hdatatype : getLe16 ((q.bytes ++ rest).drop 6) = q.datatype :=
    getLe16_u16le q.datatype (q.value ++ rest)
  have hvalue : (q.bytes ++ rest).drop 8 = q.value ++ rest := rfl
  unfold parseQuad
  dsimp only
  rw [hhandle, hcode, hdatatype, hvalue, h rest]
  dsimp only
  rw [if_neg (by rw [List.length_append]; omega), List.take_left, List.drop_left]

/-- A list of fewer than `2 ^ 32` quadruples is read back. -/
theorem parseQuads_bytes {quads : List Quad} (h : ∀ q ∈ quads, q.Sized)
    (hlen : quads.length < 2 ^ 32) :
    parseQuads (listBytes quads) = some quads := by
  have hstep : InStep Quad.bytes (fun (_ : Unit) => parseQuad) id [] quads :=
    inStep_of_forall fun q hq _ rest => parseQuad_bytes (h q hq) rest
  have hread := hstep (List.replicate quads.length ()) (by rw [List.length_replicate])
  rw [List.length_replicate, List.take_length, List.drop_length, List.map_id, List.append_nil,
    List.flatMap_nil, List.append_nil] at hread
  have hcount : (UInt32.ofNat quads.length).toNat = quads.length := by
    rw [UInt32.toNat_ofNat', Nat.mod_eq_of_lt hlen]
  have hbody : (listBytes quads).drop 4 = quads.flatMap Quad.bytes := rfl
  rw [parseQuads, listBytes, getLe32_u32le, hcount, ← listBytes, hbody, parseBody, hread, Option.bind_some, if_pos rfl]

theorem valueSize_pos {datatype : UInt16} {bytes : List UInt8} {n : Nat}
    (h : valueSize datatype bytes = some n) : 0 < n := by
  unfold valueSize at h
  split_ifs at h
  · cases h; decide
  · cases h; decide
  · cases h; decide
  · cases h; decide
  · obtain ⟨count, -, rfl⟩ := Option.map_eq_some_iff.mp h
    omega

/-- A quadruple takes the bytes of its header and of its value. -/
theorem length_of_parseQuad {bytes rest : List UInt8} {q : Quad}
    (h : parseQuad bytes = some (q, rest)) : bytes.length = 8 + q.value.length + rest.length := by
  unfold parseQuad at h
  dsimp only at h
  cases hsize : valueSize (getLe16 (bytes.drop 6)) (bytes.drop 8) with
  | none =>
    rw [hsize] at h
    cases h
  | some n =>
    rw [hsize] at h
    dsimp only at h
    split_ifs at h with hshort
    cases h
    have hpos := valueSize_pos hsize
    simp only [List.length_take, List.length_drop] at hshort ⊢
    omega

theorem Quad.length_bytes (q : Quad) : q.bytes.length = 8 + q.value.length := by
  rw [Quad.bytes, List.length_append]
  rfl

/-- What is read is all that is there. -/
theorem length_of_parseQuads {dataset : List UInt8} {quads : List Quad}
    (h : parseQuads dataset = some quads) :
    dataset.length - 4 = (quads.map fun q => 8 + q.value.length).sum := by
  rw [parseQuads, parseBody] at h
  obtain ⟨⟨items, rest⟩, hread, hend⟩ := Option.bind_eq_some_iff.mp h
  split_ifs at hend with hrest
  obtain rfl := Option.some.inj hend
  obtain rfl : rest = [] := hrest
  have hlen := length_of_decodeMany (fun _ _ _ _ hone => length_of_parseQuad hone) hread
  rwa [List.length_drop] at hlen

/-! ### What is asked for -/

/-- An object of the list: a handle asks for itself, and with depth `ALL` for what is below it, 0
for the roots and `ALL` for every object. -/
def Obj.Asked (objs : List Obj) (handle fmt depth : UInt32) (o : Obj) : Prop :=
  o.alive = true ∧ (fmt = 0 ∨ o.fmt.toUInt32 = fmt) ∧
    (handle = all ∨ handle = 0 ∧ o.parent = 0 ∨
      handle ≠ 0 ∧ (o.handle = handle ∨
        depth = all ∧ isDescendant objs o.handle handle = some true))

instance (objs : List Obj) (handle fmt depth : UInt32) (o : Obj) :
    Decidable (o.Asked objs handle fmt depth) :=
  inferInstanceAs (Decidable (_ ∧ (_ ∨ _) ∧ (_ ∨ _ ∧ _ ∨ _ ∧ (_ ∨ _ ∧ _))))

/-- The supported properties that are asked for, 0 and `ALL` standing for all. -/
def askedProps (propcode : UInt32) : List UInt16 :=
  if propcode = 0 ∨ propcode = all then propList
  else if propcode.toUInt16 ∈ propList then [propcode.toUInt16]
  else []

/-- The bytes of a PTP string: a count, and two bytes for a character and for the NUL. -/
def bstrSize (s : CStr) : Nat := if s = [] then 1 else 1 + 2 * (min 254 s.length + 1)

section
variable (dateText : UInt32 → CStr)

/-- The bytes of the value of a property. -/
def propSize (o : Obj) (pc : UInt16) : Nat :=
  if pc = opcObjectFormat ∨ pc = opcProtection then 2
  else if pc = opcStorageId ∨ pc = opcParent then 4
  else if pc = opcObjectSize then 8
  else if pc = opcPuid then 16
  else if pc = opcDateModified then bstrSize (dateText o.mtime)
  else bstrSize o.name

/-- The bytes of the list that a request asks for: the count, and the header and the value of each
quadruple. -/
def listSize (st : MtpState) (p : List UInt32) : Nat :=
  4 + ((st.objs.filter fun o => o.Asked st.objs (par p 0) (par p 1) (par p 4)).map fun o =>
    ((askedProps (par p 2)).map fun pc => 8 + propSize dateText o pc).sum).sum

end

/-- The climbs that a request for a list makes end. -/
def ClimbsEnd (st : MtpState) (p : List UInt32) : Prop :=
  ∀ o ∈ st.objs, (propSelected st.objs (par p 0) (par p 1) (par p 4) o).isSome

/-- The quadruples that a request asks for: each has the datatype that the description of the
property announces, and the value that is answered to a request for it alone. -/
structure Lists (dateText : UInt32 → CStr) (st : MtpState) (p : List UInt32)
    (quads : List Quad) : Prop where
  order : quads.map (fun q => (q.handle, q.code)) =
    (st.objs.filter fun o => o.Asked st.objs (par p 0) (par p 1) (par p 4)).flatMap fun o =>
      (askedProps (par p 2)).map fun pc => (o.handle, pc)
  datatype : ∀ q ∈ quads, ∃ desc,
    plan dateText st opGetObjectPropDesc [q.code.toUInt32] = .dataset desc ∧
      getLe16 (desc.drop 2) = q.datatype
  value : ∀ q ∈ quads,
    plan dateText st opGetObjectPropValue [q.handle, q.code.toUInt32] = .dataset q.value

/-- There is one list of them. -/
theorem Lists.unique {dateText : UInt32 → CStr} {st : MtpState} {p : List UInt32}
    {quads quads' : List Quad} (h : Lists dateText st p quads) (h' : Lists dateText st p quads') :
    quads = quads' := by
  have hpairs := h.order.trans h'.order.symm
  have hone : ∀ q ∈ quads, ∀ q' ∈ quads', (q.handle, q.code) = (q'.handle, q'.code) → q = q' := by
    intro q hq q' hq' heq
    obtain ⟨hhandle, hcode⟩ := Prod.mk.inj heq
    obtain ⟨desc, hdesc, hdatatype⟩ := h.datatype q hq
    obtain ⟨desc', hdesc', hdatatype'⟩ := h'.datatype q' hq'
    have hvalue := h.value q hq
    rw [hcode, hdesc'] at hdesc
    rw [hhandle, hcode, h'.value q' hq'] at hvalue
    injection hdesc with hdesc
    injection hvalue with hvalue
    rw [← hdesc, hdatatype'] at hdatatype
    exact Quad.ext hhandle hcode hdatatype.symm hvalue.symm
  have hlen : quads.length = quads'.length := by
    simpa only [List.length_map] using congrArg List.length hpairs
  refine List.ext_getElem hlen fun i hi hi' => ?_
  refine hone _ (List.getElem_mem hi) _ (List.getElem_mem hi') ?_
  have hat := List.getElem_of_eq hpairs (i := i) (by rwa [List.length_map])
  rwa [List.getElem_map, List.getElem_map] at hat

section
variable (dateText : UInt32 → CStr)

theorem length_bstr (s : CStr) : (bstr s).length = bstrSize s := by
  have hpair : ∀ c : UInt8, [c, 0].length = 2 := fun _ => rfl
  have hchars := length_flatMap_const hpair (s.take 254)
  have hnul : (u16le 0).length = 2 := rfl
  unfold bstr bstrSize
  dsimp only
  by_cases hs : s = []
  · subst hs
    rfl
  · have htake : s.take 254 ≠ [] := by simpa using hs
    rw [if_neg htake, if_neg hs, List.cons_append, List.length_cons, List.length_append, hchars,
      hnul, List.length_take]
    omega

theorem bstr_size (s : CStr) (rest : List UInt8) :
    valueSize tStr (bstr s ++ rest) = some (bstr s).length := by
  have hhead : valueSize tStr (bstr s ++ rest) =
    (bstr s ++ rest).head?.map fun count => 1 + 2 * count.toNat := rfl
  have htake := List.length_take_le 254 s
  have hpair : ∀ c : UInt8, [c, 0].length = 2 := fun _ => rfl
  have hchars := length_flatMap_const hpair (s.take 254)
  have hnul : (u16le 0).length = 2 := rfl
  rw [hhead]
  unfold bstr
  dsimp only
  split
  · rfl
  · rw [List.cons_append, List.cons_append, List.head?_cons, Option.map_some, List.length_cons,
      List.length_append, hchars, hnul, UInt8.toNat_ofNat', Nat.mod_eq_of_lt (by omega)]
    congr 1
    omega

/-- Each property of the list is supported, with the datatype that is announced. -/
theorem buildProp_of_mem (readOnly : Bool) (o : Obj) {pc : UInt16} (h : pc ∈ propList) :
    ∃ value, buildProp dateText readOnly o pc = some (u16le (datatypeOf pc) ++ value) ∧
      ∀ rest, valueSize (datatypeOf pc) (value ++ rest) = some value.length := by
  simp only [propList, List.mem_cons, List.not_mem_nil, or_false] at h
  rcases h with rfl | rfl | rfl | rfl | rfl | rfl | rfl | rfl | rfl
  · exact ⟨_, rfl, fun _ => rfl⟩
  · exact ⟨_, rfl, fun _ => rfl⟩
  · exact ⟨_, rfl, fun _ => rfl⟩
  · exact ⟨_, rfl, fun _ => rfl⟩
  · exact ⟨_, rfl, bstr_size o.name⟩
  · exact ⟨_, rfl, bstr_size (dateText o.mtime)⟩
  · exact ⟨_, rfl, fun _ => rfl⟩
  · exact ⟨_, rfl, fun _ => rfl⟩
  · exact ⟨_, rfl, bstr_size o.name⟩

theorem buildProp_of_not_mem (readOnly : Bool) (o : Obj) {pc : UInt16} (h : pc ∉ propList) :
    buildProp dateText readOnly o pc = none := by
  simp only [propList, List.mem_cons, List.not_mem_nil, or_false, not_or] at h
  obtain ⟨hstorage, hformat, hprotection, hsize, hfilename, hdate, hparent, hpuid, hname⟩ := h
  rw [buildProp, if_neg hstorage, if_neg hformat, if_neg hprotection, if_neg hsize, if_neg hparent,
    if_neg hpuid, if_neg (not_or.mpr ⟨hfilename, hname⟩), if_neg hdate]

/-- The quadruple of a property. -/
def quadOf (readOnly : Bool) (o : Obj) (pc : UInt16) : Quad :=
  ⟨o.handle, pc, datatypeOf pc, (buildPropValue dateText readOnly o pc).getD []⟩

theorem sized_quadOf (readOnly : Bool) (o : Obj) {pc : UInt16} (h : pc ∈ propList) :
    (quadOf dateText readOnly o pc).Sized := by
  obtain ⟨value, hbuild, hsize⟩ := buildProp_of_mem dateText readOnly o h
  have hvalue : (quadOf dateText readOnly o pc).value = value := by
    rw [quadOf, buildPropValue, hbuild]
    rfl
  intro rest
  rw [hvalue]
  exact hsize rest

/-- What `build_prop_list` writes of a property. -/
theorem entry_of_mem (readOnly : Bool) (o : Obj) {pc : UInt16} (h : pc ∈ propList) :
    (buildProp dateText readOnly o pc).map (fun value => u32le o.handle ++ u16le pc ++ value) =
      some (quadOf dateText readOnly o pc).bytes := by
  obtain ⟨value, hbuild, -⟩ := buildProp_of_mem dateText readOnly o h
  have hvalue : (buildPropValue dateText readOnly o pc).getD [] = value := by
    rw [buildPropValue, hbuild]
    rfl
  rw [hbuild, quadOf, hvalue, Quad.bytes, Option.map_some, List.append_assoc, List.append_assoc,
    List.append_assoc]

theorem askedProps_subset {propcode : UInt32} {pc : UInt16} (h : pc ∈ askedProps propcode) :
    pc ∈ propList := by
  unfold askedProps at h
  split_ifs at h with hall hmem
  · exact h
  · rwa [List.mem_singleton.mp h]
  · cases h

theorem propEntries_eq (readOnly : Bool) (o : Obj) (propcode : UInt32) :
    propEntries dateText readOnly o propcode =
      (askedProps propcode).map fun pc => (quadOf dateText readOnly o pc).bytes := by
  unfold propEntries askedProps
  dsimp only
  split_ifs with hall hmem
  · rw [← List.filterMap_eq_map]
    exact List.filterMap_congr fun pc hpc => entry_of_mem dateText readOnly o hpc
  · rw [List.filterMap_cons, entry_of_mem dateText readOnly o hmem]
    rfl
  · rw [List.filterMap_cons, buildProp_of_not_mem dateText readOnly o hmem]
    rfl

/-! ### The list -/

section
variable {st : MtpState}

theorem propSelected_iff {objs : List Obj} {handle fmt depth : UInt32} {o : Obj} {b : Bool}
    (h : propSelected objs handle fmt depth o = some b) :
    b = true ↔ o.Asked objs handle fmt depth := by
  unfold propSelected at h
  dsimp only at h
  unfold Obj.Asked
  cases halive : o.alive with
  | false =>
    rw [halive, if_pos Bool.false_ne_true] at h
    cases h
    simp
  | true =>
    rw [halive, if_neg (not_not.mpr rfl)] at h
    obtain ⟨ok, htree, rfl⟩ := Option.map_eq_some_iff.mp h
    have hok : ok = true ↔ handle = all ∨ handle = 0 ∧ o.parent = 0 ∨
        handle ≠ 0 ∧ (o.handle = handle ∨
          depth = all ∧ isDescendant objs o.handle handle = some true) := by
      split_ifs at htree with hall h0 hself hdepth
      · cases htree
        simp [hall]
      · cases htree
        subst h0
        simp [hall]
      · cases htree
        simp [h0, hself]
      · rw [htree]
        simp [hall, h0, hself, hdepth]
      · cases htree
        simp [hall, h0, hself, hdepth]
    rw [Bool.and_eq_true, hok, Bool.or_eq_true, beq_iff_eq, beq_iff_eq, and_comm, and_iff_right rfl]

/-- The list of quadruples, where the climbs end. -/
theorem propEntriesOf_eq {objs : List Obj} (readOnly : Bool) (handle fmt propcode depth : UInt32)
    {l : List Obj} (hends : ∀ o ∈ l, (propSelected objs handle fmt depth o).isSome) :
    propEntriesOf dateText readOnly objs handle fmt propcode depth l =
      some ((l.filter fun o => o.Asked objs handle fmt depth).flatMap fun o =>
        propEntries dateText readOnly o propcode) := by
  induction l with
  | nil => rfl
  | cons o rest ih =>
    obtain ⟨ho, hrest⟩ := List.forall_mem_cons.mp hends
    obtain ⟨b, hb⟩ := Option.isSome_iff_exists.mp ho
    have hasked := propSelected_iff hb
    rw [propEntriesOf, hb, ih hrest, List.filter_cons]
    cases b with
    | true => simp [hasked.mp rfl]
    | false => simp [show ¬o.Asked objs handle fmt depth from fun h => by simpa using hasked.mpr h]

/-- A climb that does not end keeps the list from being made. -/
theorem propEntriesOf_isSome {objs : List Obj} (readOnly : Bool)
    (handle fmt propcode depth : UInt32) {l : List Obj}
    (h : (propEntriesOf dateText readOnly objs handle fmt propcode depth l).isSome) :
    ∀ o ∈ l, (propSelected objs handle fmt depth o).isSome := by
  induction l with
  | nil => exact fun _ ho => absurd ho List.not_mem_nil
  | cons o rest ih =>
    rw [propEntriesOf] at h
    obtain ⟨entries, hentries⟩ := Option.isSome_iff_exists.mp h
    obtain ⟨b, hb, hmore⟩ := Option.bind_eq_some_iff.mp hentries
    obtain ⟨more, hrest, -⟩ := Option.bind_eq_some_iff.mp hmore
    exact List.forall_mem_cons.mpr
      ⟨Option.isSome_iff_exists.mpr ⟨b, hb⟩, ih (Option.isSome_iff_exists.mpr ⟨more, hrest⟩)⟩

/-- The quadruples of a request. -/
def quadsFor (st : MtpState) (p : List UInt32) : List Quad :=
  (st.objs.filter fun o => o.Asked st.objs (par p 0) (par p 1) (par p 4)).flatMap fun o =>
    (askedProps (par p 2)).map (quadOf dateText st.readOnly o)

theorem mem_quadsFor {p : List UInt32} {q : Quad} (h : q ∈ quadsFor dateText st p) :
    ∃ o ∈ st.objs, o.alive = true ∧ ∃ pc ∈ propList, q = quadOf dateText st.readOnly o pc := by
  obtain ⟨o, ho, hq⟩ := List.mem_flatMap.mp h
  obtain ⟨pc, hpc, rfl⟩ := List.mem_map.mp hq
  obtain ⟨hmem, hasked⟩ := List.mem_filter.mp ho
  exact ⟨o, hmem, (of_decide_eq_true hasked).1, pc, askedProps_subset hpc, rfl⟩

theorem buildPropList_eq {p : List UInt32} (hends : ClimbsEnd st p) :
    buildPropList dateText st.readOnly st.objs (par p 0) (par p 1) (par p 2) (par p 4) =
      some (listBytes (quadsFor dateText st p)) := by
  have hentries : ((st.objs.filter fun o => o.Asked st.objs (par p 0) (par p 1) (par p 4)).flatMap
      fun o => propEntries dateText st.readOnly o (par p 2)) =
        (quadsFor dateText st p).map Quad.bytes := by
    rw [quadsFor, List.map_flatMap]
    simp only [propEntries_eq, List.map_map]
    rfl
  rw [buildPropList, propEntriesOf_eq dateText _ _ _ _ _ hends, hentries, Option.map_some,
    List.length_map, listBytes, List.flatMap]

theorem buildPropList_none {p : List UInt32} (hends : ¬ClimbsEnd st p) :
    buildPropList dateText st.readOnly st.objs (par p 0) (par p 1) (par p 2) (par p 4) = none := by
  rw [buildPropList, Option.map_eq_none_iff, ← Option.not_isSome_iff_eq_none]
  exact fun h => hends (propEntriesOf_isSome dateText _ _ _ _ _ h)

theorem length_quadOf (readOnly : Bool) (o : Obj) {pc : UInt16} (h : pc ∈ propList) :
    (quadOf dateText readOnly o pc).value.length = propSize dateText o pc := by
  simp only [propList, List.mem_cons, List.not_mem_nil, or_false] at h
  rcases h with rfl | rfl | rfl | rfl | rfl | rfl | rfl | rfl | rfl
  · rfl
  · rfl
  · rfl
  · rfl
  · exact length_bstr o.name
  · exact length_bstr (dateText o.mtime)
  · rfl
  · rfl
  · exact length_bstr o.name

/-- The sizes of the quadruples of a request add up to that of the list. -/
theorem sum_quadsFor (p : List UInt32) :
    4 + ((quadsFor dateText st p).map fun q => 8 + q.value.length).sum = listSize dateText st p := by
  rw [quadsFor, List.map_flatMap, List.flatMap, List.sum_flatten, List.map_map, listSize]
  congr 3
  funext o
  rw [Function.comp, List.map_map]
  congr 1
  refine List.map_congr_left fun pc hpc => ?_
  exact congrArg (8 + ·) (length_quadOf dateText st.readOnly o (askedProps_subset hpc))

theorem length_listBytes (quads : List Quad) :
    (listBytes quads).length = 4 + (quads.map fun q => 8 + q.value.length).sum := by
  rw [listBytes, List.length_append, List.length_flatMap]
  simp only [Quad.length_bytes]
  rfl

theorem length_le_sum (quads : List Quad) :
    quads.length * 8 ≤ (quads.map fun q => 8 + q.value.length).sum := by
  induction quads with
  | nil => exact Nat.le_refl 0
  | cons q quads ih =>
    rw [List.map_cons, List.sum_cons, List.length_cons]
    omega

/-- The quadruples are those that are asked for. -/
theorem lists_quadsFor (hnum : Numbered st.objs st.nextHandle) (hlen : st.objs.length < 2 ^ 32)
    (p : List UInt32) : Lists dateText st p (quadsFor dateText st p) := by
  refine ⟨?_, fun q hq => ?_, fun q hq => ?_⟩
  · rw [quadsFor, List.map_flatMap]
    simp only [List.map_map]
    rfl
  · obtain ⟨o, -, -, pc, hpc, rfl⟩ := mem_quadsFor dateText hq
    have hsupported : propList.any (fun pc' => pc'.toUInt32 = pc.toUInt32) = true :=
      List.any_eq_true.mpr ⟨pc, hpc, decide_eq_true rfl⟩
    refine ⟨buildPropDesc pc, ?_, getLe16_u16le (datatypeOf pc) _⟩
    show (if propList.any (fun pc' => pc'.toUInt32 = pc.toUInt32) = true then
      Outcome.dataset (buildPropDesc pc.toUInt32.toUInt16) else _) = _
    rw [if_pos hsupported, UInt16.toUInt16_toUInt32]
  · obtain ⟨o, ho, halive, pc, hpc, rfl⟩ := mem_quadsFor dateText hq
    obtain ⟨value, hbuild, -⟩ := buildProp_of_mem dateText st.readOnly o hpc
    have hfound := objByHandle_of_mem hnum hlen ho halive
    show needObj st.objs o.handle false _ = _
    rw [needObj, hfound, quadOf, buildPropValue, hbuild]
    dsimp only
    have hcode : (par [o.handle, pc.toUInt32] 1).toUInt16 = pc := UInt16.toUInt16_toUInt32 pc
    rw [Bool.false_and, if_neg Bool.false_ne_true, hcode, buildPropValue, hbuild]
    rfl

end

end

/-! ### Names -/

theorem ptpChars_flatMap {s : CStr} (h0 : (0 : UInt8) ∉ s) (rest : List UInt8) {count : Nat}
    (hlen : s.length ≤ count) :
    ptpChars ((s.flatMap fun c => [c, 0]) ++ 0 :: rest) count = s := by
  induction s generalizing count with
  | nil => cases count <;> rfl
  | cons c s ih =>
    obtain ⟨hc, hs⟩ := not_or.mp (mt List.mem_cons.mpr h0)
    obtain ⟨count, rfl⟩ := Nat.exists_eq_succ_of_ne_zero
      (Nat.pos_iff_ne_zero.mp (Nat.lt_of_lt_of_le (Nat.succ_pos s.length) hlen))
    show (if c = 0 then [] else c :: ptpChars ((s.flatMap fun c => [c, 0]) ++ 0 :: rest) count) = _
    rw [if_neg (Ne.symm hc), ih hs (Nat.le_of_succ_le_succ hlen)]

/-- A name that fits is read back from its string. -/
theorem ptpStrAscii_bstr {s : CStr} (hlen : s.length ≤ 254) (h0 : (0 : UInt8) ∉ s)
    (rest : List UInt8) : ptpStrAscii (bstr s ++ rest) 256 = s := by
  unfold bstr
  dsimp only
  rw [List.take_of_length_le hlen]
  split
  · next hnil => exact hnil.symm
  · have hcount : (UInt8.ofNat (s.length + 1)).toNat = s.length + 1 := by
      rw [UInt8.toNat_ofNat', Nat.mod_eq_of_lt (by omega)]
    have hbytes : (UInt8.ofNat (s.length + 1) :: (s.flatMap fun c => [c, 0]) ++ u16le 0) ++ rest =
      UInt8.ofNat (s.length + 1) :: ((s.flatMap fun c => [c, 0]) ++ 0 :: 0 :: rest) := by
      rw [List.append_assoc, List.cons_append]
      rfl
    rw [hbytes, ptpStrAscii, hcount]
    exact ptpChars_flatMap h0 _ (by omega)

/-! ### What is sent -/

section
variable {β : Type} {B : Backend β}

theorem numbered_run {opts : MtpOpts} {disk : β} {acts : List (Act β)} {w : World β}
    (hrun : exec (next B) (build B opts disk) acts = some w) :
    Numbered w.st.objs w.st.nextHandle := by
  refine exec_invariant (I := fun w => Numbered w.st.objs w.st.nextHandle)
    (fun w a w' hw hstep => ?_) (numbered_rescan B .nil) hrun
  obtain ⟨-, rfl⟩ := next_some B hstep
  exact numbered_act B hw a

theorem sane_run (hB : Shallow B) {opts : MtpOpts} {disk : β} {acts : List (Act β)} {w : World β}
    (hrun : exec (next B) (build B opts disk) acts = some w) : Sane w.st := by
  refine exec_invariant (I := fun w => Sane w.st) (fun w a w' hw hstep => ?_)
    (sane_rescan hB .nil) hrun
  obtain ⟨-, rfl⟩ := next_some B hstep
  exact hw.act hB a

/-- A request for a list is answered with one dataset, which parses as the quadruples that are asked
for, with nothing left over, and with OK. -/
def ListSent (dateText : UInt32 → CStr) (w w' : World β) (txid : UInt32) (p : List UInt32) : Prop :=
  ∃ dataset quads, w'.log = w.log ++
      [.sent .bulkIn ⟨ctData, opGetObjectPropList, txid, dataset⟩,
        .sent .bulkIn ⟨ctResponse, rcOk, txid, []⟩] ∧
    parseQuads dataset = some quads ∧ Lists dateText w.st p quads

/-- Where a dataset goes out before OK, it is the start of what was built, and fits a container. -/
theorem dataOk_sends {w : World β} {code : UInt16} {txid : UInt32} {payload dataset : List UInt8}
    (h : (w.dataOk code txid payload).log = w.log ++ [.sent .bulkIn ⟨ctData, code, txid, dataset⟩,
      .sent .bulkIn ⟨ctResponse, rcOk, txid, []⟩]) :
    dataset <+: payload ∧ dataset.length < 2 ^ 31 - 12 := by
  rw [World.dataOk, World.respond_eq, World.sendData, World.sendOne] at h
  split_ifs at h with hnone hfail
  · have hlen := congrArg List.length h
    simp [World.note] at hlen
  · have hlen := congrArg List.length h
    simp [World.note, World.fail] at hlen
  · simp only [World.note, List.append_assoc, List.cons_append, List.nil_append,
      List.append_cancel_left_eq, List.cons.injEq, Effect.sent.injEq, Container.mk.injEq, true_and]
      at h
    obtain ⟨hdata, -⟩ := h
    rw [← hdata]
    refine ⟨List.take_prefix _ _, ?_⟩
    rw [List.length_take]
    omega

/-- What is answered to a request for a list, where the climbs end. -/
theorem onOut_propList {w : World β} (hidle : w.st.rxActive = false) (hsession : w.st.session ≠ 0)
    (txid : UInt32) {p : List UInt32} (hp : p.length ≤ 5) :
    onOut B w (Container.bytes ⟨ctCommand, opGetObjectPropList, txid, p.flatMap u32le⟩) =
      perform B w opGetObjectPropList txid p (ofDataset (buildPropList B.dateText w.st.readOnly
        w.st.objs (par p 0) (par p 1) (par p 2) (par p 4))) := by
  rw [onOut_of_inactive B hidle, dispatch_bytes B hsession _ _ _ hp]
  rfl

/-- What is sent for a list is the start of what was built, and fits a container. -/
theorem ListSent.fits {w : World β} {txid : UInt32} {p : List UInt32}
    (hidle : w.st.rxActive = false) (hsession : w.st.session ≠ 0) (hp : p.length ≤ 5)
    (h : ListSent B.dateText w (onOut B w (Container.bytes
      ⟨ctCommand, opGetObjectPropList, txid, p.flatMap u32le⟩)) txid p) :
    ClimbsEnd w.st p ∧ ∃ dataset quads, parseQuads dataset = some quads ∧
      Lists B.dateText w.st p quads ∧ dataset.length < 2 ^ 31 - 12 ∧
      dataset <+: listBytes (quadsFor B.dateText w.st p) := by
  obtain ⟨dataset, quads, hlog, hparse, hlists⟩ := h
  rw [onOut_propList hidle hsession txid hp] at hlog
  by_cases hends : ClimbsEnd w.st p
  · rw [buildPropList_eq B.dateText hends] at hlog
    obtain ⟨hpre, hfits⟩ := dataOk_sends hlog
    exact ⟨hends, dataset, quads, hparse, hlists, hfits, hpre⟩
  · rw [buildPropList_none B.dateText hends] at hlog
    have hlength := congrArg List.length (show w.log = _ from hlog)
    simp at hlength

/-- In every state that is reached between commands of a session: a request for a list of properties
is answered with a dataset that parses as the quadruples that are asked for, with nothing left over,
exactly when the climbs to the ancestors end and the list fits a container. The climbs do end over a
backend whose scans do. And a name that fits is read back from its string. -/
theorem propList_sent (opts : MtpOpts) (disk : β) {acts : List (Act β)} {w : World β}
    (hrun : exec (next B) (build B opts disk) acts = some w) (hlen : w.st.objs.length < 2 ^ 32)
    (hidle : w.st.rxActive = false) (hsession : w.st.session ≠ 0) (txid : UInt32) {p : List UInt32}
    (hp : p.length ≤ 5) :
    (ListSent B.dateText w (onOut B w (Container.bytes
        ⟨ctCommand, opGetObjectPropList, txid, p.flatMap u32le⟩)) txid p ↔
      ClimbsEnd w.st p ∧ listSize B.dateText w.st p < 2 ^ 31 - 12) ∧
      (Shallow B → ClimbsEnd w.st p) ∧
      ∀ name rest, name.length ≤ 254 → (0 : UInt8) ∉ name →
        ptpStrAscii (bstr name ++ rest) 256 = name := by
  have hlists := lists_quadsFor B.dateText (numbered_run hrun) hlen p
  have hsum : 4 + ((quadsFor B.dateText w.st p).map fun q => 8 + q.value.length).sum =
      listSize B.dateText w.st p := sum_quadsFor B.dateText p
  have hbytes := length_listBytes (quadsFor B.dateText w.st p)
  refine ⟨⟨fun hsent => ?_, fun ⟨hends, hfits⟩ => ?_⟩, fun hB => ?_,
    fun name rest hname h0 => ptpStrAscii_bstr hname h0 rest⟩
  · obtain ⟨hends, dataset, quads, hparse, hq, hfits, hpre⟩ := hsent.fits hidle hsession hp
    -- a dataset that parses is not a part of the list
    rw [hq.unique hlists] at hparse
    have hread := length_of_parseQuads hparse
    exact ⟨hends, by omega⟩
  · rw [onOut_propList hidle hsession txid hp, buildPropList_eq B.dateText hends]
    refine ⟨_, _, ?_, parseQuads_bytes (fun q hq => ?_) ?_, hlists⟩
    · show (w.dataOk opGetObjectPropList txid _).log = _
      have hint := toInt32_of_lt (n := (listBytes (quadsFor B.dateText w.st p)).length) (by omega)
      rw [World.dataOk, hint, World.sendData, World.sendOne_of_le _ _ _ _ _ (Nat.le_refl _)
        (by omega), World.respond_eq, List.take_length]
      simp [World.note]
    · obtain ⟨o, -, -, pc, hpc, rfl⟩ := mem_quadsFor B.dateText hq
      exact sized_quadOf B.dateText w.st.readOnly o hpc
    · have hle := length_le_sum (quadsFor B.dateText w.st p)
      omega
  · intro o _
    have hdown := (sane_run hB hrun).descends hlen
    have hclimb := isDescendant_ends hdown o.handle (par p 0)
    unfold propSelected
    dsimp only
    split_ifs <;> simp [Option.isSome_iff_ne_none, hclimb]

end

theorem file_shallow : Shallow fileBackend := by
  have hls : ∀ disk si dir n, n ∈ listed fileBackend disk si dir → dir = [] ∧ n = ascii "f" := by
    intro disk si dir n hn
    have hn' : n ∈ if dir = [] then [ascii "f"] else [] := hn
    split at hn'
    · next hdir => exact ⟨hdir, List.mem_singleton.mp hn'⟩
    · cases hn'
  constructor
  · intro disk si dir n hn
    rw [(hls disk si dir n hn).2]
    decide
  · intro disk si dir n hn
    obtain ⟨rfl, rfl⟩ := hls disk si dir n hn
    decide
  · decide

theorem propList_sent_file :
    ListSent fileBackend.dateText fileWorld (onOut fileBackend fileWorld
      (Container.bytes ⟨ctCommand, opGetObjectPropList, 2, [all, 0, all].flatMap u32le⟩)) 2
      [all, 0, all] :=
  have hrun : exec (next fileBackend) (build fileBackend ⟨false, none, none, none, 1⟩ ())
      [openSession] = some fileWorld := rfl
  have hsent := propList_sent _ () hrun (by decide) (by decide) (by decide) 2
    (p := [all, 0, all]) (by decide)
  hsent.1.mpr ⟨hsent.2.1 file_shallow, by decide⟩

/-! ### A list that does not fit -/

/-- A name of five characters for a number below `2 ^ 30`. -/
def digitName (i : Nat) : CStr :=
  [0, 1, 2, 3, 4].map fun k => UInt8.ofNat (0x40 + i / 64 ^ k % 64)

theorem digitName_inj {i j : Nat} (hi : i < 2 ^ 30) (hj : j < 2 ^ 30)
    (h : digitName i = digitName j) : i = j := by
  have hdigit : ∀ k ∈ [0, 1, 2, 3, 4], i / 64 ^ k % 64 = j / 64 ^ k % 64 := by
    intro k hk
    have hchar := congrArg UInt8.toNat (List.map_inj_left.mp h k hk)
    simp only [UInt8.toNat_ofNat'] at hchar
    omega
  have h0 := hdigit 0 (by decide)
  have h1 := hdigit 1 (by decide)
  have h2 := hdigit 2 (by decide)
  have h3 := hdigit 3 (by decide)
  have h4 := hdigit 4 (by decide)
  omega

theorem digitName_plain (i : Nat) : Plain slash (digitName i) ∧ (digitName i).length < 256 := by
  refine ⟨⟨List.cons_ne_nil _ _, fun hmem => ?_⟩, by rw [digitName, List.length_map]; decide⟩
  obtain ⟨k, -, hchar⟩ := List.mem_map.mp hmem
  have hnat := congrArg UInt8.toNat hchar
  rw [UInt8.toNat_ofNat', show slash.toNat = 0x2f from rfl] at hnat
  omega

/-- A backend with files in the root of its store. -/
def filesBackend (names : List CStr) : Backend Unit :=
  .ofTrees (fun _ _ => Tree.files names) fun _ _ => (0, ())

def filesWorld (names : List CStr) : World Unit :=
  act (filesBackend names) (build (filesBackend names) ⟨false, none, none, none, 1⟩ ()) openSession

theorem openSession_st {B : Backend Unit} {w : World Unit} (hidle : w.st.rxActive = false)
    (hclosed : w.st.session = 0) : (act B w openSession).st = { w.st with session := 1 } := by
  show (onOut B w (Container.bytes ⟨1, opOpenSession, 1, u32le 1⟩)).st = _
  have hplan : plan B.dateText w.st opOpenSession [1] = .setSession 1 := by
    show (if w.st.session ≠ 0 then _ else _) = _
    rw [if_neg (not_not.mpr hclosed)]
    rfl
  have hperform : dispatch B w (Container.bytes ⟨1, opOpenSession, 1, u32le 1⟩) =
      perform B w opOpenSession 1 [1] (plan B.dateText w.st opOpenSession [1]) := rfl
  rw [onOut_of_inactive B hidle, hperform, hplan, perform, World.respond_st]
  rfl

section
variable {names : List CStr}

/-- A session over the files: the table has an object for each of them. -/
theorem filesWorld_run (hplain : ∀ n ∈ names, Plain slash n ∧ n.length < 256)
    (hnodup : names.Nodup) :
    exec (next (filesBackend names)) (build (filesBackend names) ⟨false, none, none, none, 1⟩ ())
        [openSession] = some (filesWorld names) ∧
      (filesWorld names).st.rxActive = false ∧ (filesWorld names).st.session ≠ 0 ∧
      names.length ≤ ((filesWorld names).st.objs.filter Obj.alive).length := by
  have hB : Holds (filesBackend names) fun _ _ => Tree.files names :=
    holds_ofTrees _ fun _ _ => Tree.files_proper hplain hnodup
  have hsame := MtpState.SameBut.rescan (filesBackend names)
    ⟨(⟨false, none, none, none, 1⟩ : MtpOpts).initial, (), [], false⟩
  have hgoes : (build (filesBackend names) ⟨false, none, none, none, 1⟩ ()).stuck = false :=
    (refreshed_rescan hB (Nat.le_refl 4096) _).stuck
  have hst : (filesWorld names).st = _ := openSession_st hsame.rxActive hsame.session
  have hrun : exec (next (filesBackend names))
      (build (filesBackend names) ⟨false, none, none, none, 1⟩ ()) [openSession] =
        some (filesWorld names) := by
    rw [exec, next_of_not_stuck _ hgoes, Option.bind_some, exec, filesWorld]
  refine ⟨hrun, by rw [hst]; exact hsame.rxActive, by rw [hst]; exact (by decide : (1 : UInt32) ≠ 0), ?_⟩
  obtain ⟨disk, -, hmirrors⟩ := (mirrored_run hB (Nat.le_refl 4096) hrun).table
  have hstore : 0 < (filesWorld names).st.nStores := by
    rw [hst]
    exact hsame.nStores.symm ▸ (by decide : 0 < MtpState.nStores _)
  have hsubset : names ⊆ ((filesWorld names).st.objs.filter Obj.alive).map Obj.path := by
    intro n hn
    obtain ⟨dir, n, o, rfl, -, -, hs⟩ := hmirrors.shown 0 hstore n ((Tree.files_entry n).mpr hn)
    obtain ⟨ho, -, hpath⟩ := objByPath_some hs.found
    exact List.mem_map.mpr ⟨o, List.mem_filter.mpr ⟨ho, hs.alive⟩, hpath⟩
  simpa only [List.length_map] using (hnodup.subperm hsubset).length_le

/-- A request for every property of every object lists nine for each that is alive. -/
theorem length_of_lists {dateText : UInt32 → CStr} {st : MtpState} {quads : List Quad}
    (h : Lists dateText st [all, 0, all] quads) :
    quads.length = (st.objs.filter Obj.alive).length * 9 := by
  have hasked : (st.objs.filter fun o => o.Asked st.objs all 0 0) = st.objs.filter Obj.alive := by
    refine List.filter_congr fun o _ => ?_
    simp [Obj.Asked]
  have hlen := congrArg List.length h.order
  rw [List.length_map, List.length_flatMap] at hlen
  rw [hlen, ← hasked]
  simp only [List.length_map, List.map_const', List.sum_replicate_nat]
  rfl

end

/-- Nine properties of 33554432 files do not fit a container. -/
theorem propList_not_sent :
    ¬ ∀ (B : Backend Unit) (opts : MtpOpts) (acts : List (Act Unit)) (w : World Unit),
      exec (next B) (build B opts ()) acts = some w → w.st.rxActive = false → w.st.session ≠ 0 →
      ∀ (txid : UInt32) (p : List UInt32), p.length ≤ 5 →
        ListSent B.dateText w (onOut B w (Container.bytes
          ⟨ctCommand, opGetObjectPropList, txid, p.flatMap u32le⟩)) txid p := by
  intro h
  have hdistinct : ((List.range (2 ^ 25)).map digitName).Nodup := by
    refine List.Nodup.map_on (fun i hi j hj heq => ?_) List.nodup_range
    rw [List.mem_range] at hi hj
    exact digitName_inj (by omega) (by omega) heq
  have hplain : ∀ n ∈ (List.range (2 ^ 25)).map digitName, Plain slash n ∧ n.length < 256 := by
    intro n hn
    obtain ⟨i, -, rfl⟩ := List.mem_map.mp hn
    exact digitName_plain i
  obtain ⟨hrun, hidle, hsession, hmany⟩ := filesWorld_run hplain hdistinct
  have hsent := h _ _ _ _ hrun hidle hsession 2 [all, 0, all] (by decide)
  obtain ⟨-, dataset, quads, hparse, hlists, hfits, -⟩ := hsent.fits hidle hsession (by decide)
  have hread := length_of_parseQuads hparse
  have hle := length_le_sum quads
  rw [length_of_lists hlists] at hle
  rw [List.length_map, List.length_range] at hmany
  omega

end Usbip.Mtp
