import Mathlib.Algebra.Order.Ring.Int
import Usbip.Control.Partition
import Usbip.Mtp.Answer

/-! The bytes of an object that `GetObject` and its two relatives answer with, between the 64-bit
sizes of the table, the `long` of an offset, the `int` of a count and the 32 bits of a container. -/

namespace Usbip.Mtp

open Lib Control

/-! ### A command, as it is taken apart -/

section
variable (c : Container)

theorem code_bytes : getLe16 (c.bytes.drop 6) = c.code := by
  have hcode : c.bytes.drop 6 = Device.u16le c.code ++ (u32le c.txid ++ c.payload) := rfl
  rw [hcode, getLe16_u16le]

theorem txid_bytes : getLe32 (c.bytes.drop 8) = c.txid := by
  have htxid : c.bytes.drop 8 = u32le c.txid ++ c.payload := rfl
  rw [htxid, getLe32_u32le]

theorem drop_bytes (n : Nat) : c.bytes.drop (12 + n) = c.payload.drop n := by
  rw [← List.drop_drop]
  rfl

theorem length_bytes : c.bytes.length = 12 + c.payload.length := by
  rw [Container.bytes, List.length_append]
  rfl

theorem declared_bytes : getLe32 c.bytes = UInt32.ofNat (12 + c.payload.length) :=
  getLe32_u32le _ (Device.u16le c.type ++ (Device.u16le c.code ++ (u32le c.txid ++ c.payload)))

end

theorem getLe32_drop_words (p : List UInt32) (i : Nat) :
    getLe32 ((p.flatMap u32le).drop (4 * i)) = par p i := by
  induction p generalizing i with
  | nil =>
    rw [List.flatMap_nil, List.drop_nil]
    rfl
  | cons v p ih =>
    cases i with
    | zero => exact getLe32_u32le v (p.flatMap u32le)
    | succ i =>
      have hdrop : ((v :: p).flatMap u32le).drop (4 * (i + 1)) = (p.flatMap u32le).drop (4 * i) := by
        rw [Nat.mul_succ, Nat.add_comm, ← List.drop_drop]
        rfl
      rw [hdrop, ih i]
      rfl

/-- The parameters of a command are those that the host has sent. -/
theorem paramsOf_bytes (type code : UInt16) (txid : UInt32) {p : List UInt32} (hp : p.length ≤ 5) :
    paramsOf (Container.bytes ⟨type, code, txid, p.flatMap u32le⟩) = p := by
  have hwords := length_flatMap_const u32le_length p
  have hnum : min 5 ((12 + (p.flatMap u32le).length - 12) / 4) = p.length := by omega
  rw [paramsOf, length_bytes, hnum]
  refine List.ext_getElem (by simp) fun i hi hi' => ?_
  rw [List.getElem_map, List.getElem_range, drop_bytes, getLe32_drop_words]
  exact List.getD_eq_getElem _ _ hi'

/-- A command of a session is performed. -/
theorem dispatch_bytes {β : Type} (B : Backend β) {w : World β} (hsession : w.st.session ≠ 0)
    (type code : UInt16) (txid : UInt32) {p : List UInt32} (hp : p.length ≤ 5) :
    dispatch B w (Container.bytes ⟨type, code, txid, p.flatMap u32le⟩) =
      perform B w code txid p (plan B.dateText w.st code p) := by
  have hlen : 12 ≤ (Container.bytes ⟨type, code, txid, p.flatMap u32le⟩).length := by
    rw [length_bytes]
    omega
  rw [dispatch_of_session B hlen hsession, code_bytes, txid_bytes, paramsOf_bytes type code txid hp]

/-- The two halves of a 64-bit parameter. -/
theorem toNat_par64 (a lo hi : UInt32) (p : List UInt32) :
    (par64 (a :: lo :: hi :: p) 1).toNat = lo.toNat + 2 ^ 32 * hi.toNat := by
  have hhi : hi.toNat <<< 32 < 2 ^ 64 := by
    rw [Nat.shiftLeft_eq]
    have := hi.toNat_lt
    omega
  have hor := Nat.shiftLeft_add_eq_or_of_lt lo.toNat_lt hi.toNat
  show (lo.toUInt64 ||| hi.toUInt64 <<< 32).toNat = _
  rw [UInt64.toNat_or, UInt64.toNat_shiftLeft, UInt32.toNat_toUInt64, UInt32.toNat_toUInt64,
    show UInt64.toNat 32 % 64 = 32 from rfl, Nat.mod_eq_of_lt hhi, Nat.or_comm, ← hor,
    Nat.shiftLeft_eq]
  omega

/-! ### What a host asks for -/

/-- The operations that read an object. The 64-bit offset comes in two parameters. -/
inductive ReadRequest
  | whole
  | part (off want : UInt32)
  | part64 (lo hi want : UInt32)
  deriving DecidableEq, Repr

namespace ReadRequest

def code : ReadRequest → UInt16
  | whole => opGetObject
  | part .. => opGetPartialObject
  | part64 .. => opGetPartialObject64

def params (handle : UInt32) : ReadRequest → List UInt32
  | whole => [handle]
  | part off want => [handle, off, want]
  | part64 lo hi want => [handle, lo, hi, want]

def command (r : ReadRequest) (txid handle : UInt32) : List UInt8 :=
  Container.bytes ⟨ctCommand, r.code, txid, (r.params handle).flatMap u32le⟩

/-- Where the bytes begin that are asked for. -/
def off : ReadRequest → Nat
  | whole => 0
  | part off _ => off.toNat
  | part64 lo hi _ => lo.toNat + 2 ^ 32 * hi.toNat

/-- The bytes of a file that are asked for. -/
def slice (file : List UInt8) (r : ReadRequest) : List UInt8 :=
  match r with
  | whole => file
  | part _ want | part64 _ _ want => (file.drop r.off).take want.toNat

/-! ### What the class makes of it -/

/-- The offset as a `long`, the length as a `long` that is negative for all the rest, and whether
the response counts the bytes. -/
def longOff : ReadRequest → Int
  | whole => 0
  | part off _ => off.toNat
  | part64 lo hi _ => toInt64 (lo.toNat + 2 ^ 32 * hi.toNat : Nat)

def longWant : ReadRequest → Int
  | whole => -1
  | part _ want => if want = all then -1 else want.toNat
  | part64 _ _ want => want.toNat

def counted : ReadRequest → Bool
  | whole => false
  | part .. | part64 .. => true

theorem plan_eq (dateText : UInt32 → CStr) (st : MtpState) (r : ReadRequest) (handle : UInt32) :
    plan dateText st r.code (r.params handle) = needObj st.objs handle true fun o =>
      .read o r.longOff r.longWant r.counted := by
  cases r with
  | whole => rfl
  | part off want => rfl
  | part64 lo hi want =>
    rw [longOff, ← toNat_par64 handle lo hi [want]]
    rfl

theorem dispatch_command {β : Type} (B : Backend β) {w : World β} (hsession : w.st.session ≠ 0)
    (r : ReadRequest) (txid handle : UInt32) :
    dispatch B w (r.command txid handle) = perform B w r.code txid (r.params handle)
      (needObj w.st.objs handle true fun o => .read o r.longOff r.longWant r.counted) := by
  have hparams : (r.params handle).length ≤ 5 := by cases r <;> simp [params]
  rw [command, dispatch_bytes B hsession _ _ _ hparams, plan_eq]

/-- An offset that fits is the offset that is read from. -/
theorem longOff_eq (r : ReadRequest) (h : r.off < 2 ^ 63) : r.longOff = r.off := by
  cases r with
  | whole => rfl
  | part off want => rfl
  | part64 lo hi want => exact toInt64_of_lt (by omega) (by exact_mod_cast h)

/-- Another one is taken for negative. -/
theorem longOff_neg (r : ReadRequest) (h : 2 ^ 63 ≤ r.off) : r.longOff < 0 := by
  cases r with
  | whole => exact absurd h (by decide)
  | part off want =>
    have hlt := off.toNat_lt
    have hoff : 2 ^ 63 ≤ off.toNat := h
    omega
  | part64 lo hi want =>
    have hlo := lo.toNat_lt
    have hhi := hi.toNat_lt
    have hoff : 2 ^ 63 ≤ lo.toNat + 2 ^ 32 * hi.toNat := h
    rw [longOff, toInt64, BitVec.toInt_ofInt, Int.bmod_def]
    omega

end ReadRequest

/-! ### What the host gets -/

/-- What goes out over the bulk pipe. -/
def Effect.container {β : Type} : Effect β → Option Container
  | .sent .bulkIn c => some c
  | _ => none

def containersBetween {β : Type} (w w' : World β) : List Container :=
  (w'.log.drop w.log.length).filterMap Effect.container

/-- The length field of a container, which is saturated where it does not fit. -/
def lengthField (n : Nat) : UInt32 := UInt32.ofNat (min n (2 ^ 32 - 1))

/-- A data container with the bytes is answered, and no read was asked of the backend from a
negative offset or of a negative length. -/
structure Brings {β : Type} (w w' : World β) (code : UInt16) (txid : UInt32)
    (slice : List UInt8) : Prop where
  going : w'.stuck = false
  sent : ∃ counts, containersBetween w w' =
    [⟨ctData, code, txid, slice⟩, ⟨ctResponse, rcOk, txid, counts⟩]
  length : getLe32 (Container.bytes ⟨ctData, code, txid, slice⟩) = lengthField (12 + slice.length)
  reads : ∀ si path off want st,
    .called (.read si path off want) st ∈ w'.log.drop w.log.length → 0 ≤ off ∧ 0 ≤ want

/-- Between commands, with a file in the table that the backend reads: as many bytes as are asked
for, or all that there are from the offset on. -/
structure Readable {β : Type} (B : Backend β) (w : World β) (handle : UInt32) (o : Obj)
    (file : List UInt8) : Prop where
  going : w.stuck = false
  idle : w.st.rxActive = false
  session : w.st.session ≠ 0
  found : objByHandle w.st.objs handle = some o
  isFile : o.isDir = false
  size : o.size.toNat = file.length
  size_lt : o.size.toNat < 2 ^ 63
  read : ∀ off want : Nat, (B.call w.disk (.read o.si o.path off want)).1 =
    ReadResult.mk ((file.drop off).take want).length ((file.drop off).take want)

section
variable {β : Type} {B : Backend β} {w : World β} {handle : UInt32} {o : Obj} {file : List UInt8}

/-- How many bytes `read_object` wants of those that there are. -/
def wanted (avail : Nat) (want : Int) : Nat := if want < 0 then avail else min want.toNat avail

theorem take_wanted (bytes : List UInt8) (n : Nat) :
    wanted bytes.length n = (bytes.take n).length ∧ bytes.take n = bytes.take (bytes.take n).length := by
  have hnot : ¬(n : Int) < 0 := by omega
  rw [wanted, if_neg hnot, Int.toNat_natCast, List.length_take, List.take_eq_take_min]
  exact ⟨rfl, rfl⟩

/-- Where the bytes fit a container, they are as many as are wanted. -/
theorem ReadRequest.wanted_eq (r : ReadRequest) (file : List UInt8)
    (hfits : (r.slice file).length < 2 ^ 31 - 12) :
    wanted (file.length - r.off) r.longWant = (r.slice file).length ∧
      r.slice file = (file.drop r.off).take (r.slice file).length := by
  rw [← List.length_drop]
  cases r with
  | whole => exact ⟨rfl, (List.take_length ..).symm⟩
  | part off want =>
    by_cases hall : want = all
    · have hslice : (part off want).slice file = file.drop off.toNat := by
        have hwant : want.toNat = 2 ^ 32 - 1 := by
          rw [hall]
          rfl
        have hshort : min want.toNat (file.drop off.toNat).length < 2 ^ 31 - 12 := by
          rw [← List.length_take]
          exact hfits
        have hle : (file.drop off.toNat).length ≤ want.toNat := by omega
        exact List.take_of_length_le hle
      rw [hslice, longWant, if_pos hall]
      exact ⟨rfl, (List.take_length ..).symm⟩
    · rw [longWant, if_neg hall]
      exact take_wanted ..
  | part64 lo hi want => exact take_wanted ..

theorem readObject_eq (B : Backend β) (w : World β) (hsize : o.size.toNat < 2 ^ 63) {off : Nat}
    (hoff : off < 2 ^ 63) (want : Int) :
    readObject B w o off want =
      let n := wanted (o.size.toNat - off) want
      let answer := w.ask B (.read o.si o.path off (toInt32 n))
      let r : ReadResult := answer.1
      (⟨r.rc, r.data.take n⟩, answer.2) := by
  have hlong : toInt64 o.size.toNat = o.size.toNat := toInt64_of_lt (by omega) (by omega)
  have hdiff : toInt64 (o.size.toNat - off) = o.size.toNat - off :=
    toInt64_of_lt (by omega) (by omega)
  have havail : max 0 ((o.size.toNat : Int) - off) = (o.size.toNat - off : Nat) := by omega
  have hwant : (if want < 0 ∨ want > (o.size.toNat - off : Nat) then
      ((o.size.toNat - off : Nat) : Int) else want) = wanted (o.size.toNat - off) want := by
    unfold wanted
    split_ifs <;> omega
  unfold readObject
  dsimp only
  rw [hlong, hdiff, havail, hwant]
  rfl

/-- A read from a negative offset, or of a negative length. -/
theorem not_brings {code : UInt16} {txid : UInt32} {p : List UInt32} {off want k : Int}
    {counted : Bool} {slice : List UInt8} {r : ReadResult}
    (hread : readObject B w o off want = (r, (w.ask B (.read o.si o.path off k)).2))
    (hneg : off < 0 ∨ k < 0) :
    ¬Brings w (perform B w code txid p (.read o off want counted)) code txid slice := by
  have hsend : Extends (fun _ => True) (readObject B w o off want).2
      (perform B w code txid p (.read o off want counted)) :=
    (Extends.sendData fun _ => trivial).trans (.respond fun _ => trivial)
  obtain ⟨es, hes, -⟩ := hsend.logs.log
  have hlog : (perform B w code txid p (.read o off want counted)).log.drop w.log.length =
      .called (.read o.si o.path off k) w.st :: es := by
    rw [hes, hread]
    show ((w.log ++ [Effect.called (.read o.si o.path off k) w.st]) ++ es).drop w.log.length = _
    rw [List.append_assoc, List.drop_left]
    rfl
  intro hb
  have hmem := hb.reads o.si o.path off k w.st (by rw [hlog]; exact .head es)
  omega

/-- The answer to a read of which the count fits. -/
theorem perform_read (h : Readable B w handle o file) {off m : Nat} (hoff : off < 2 ^ 63) {want : Int}
    (hm : toInt32 (wanted (file.length - off) want) = m)
    (code : UInt16) (txid : UInt32) (p : List UInt32) (counted : Bool) :
    ∃ w1 : World β, ((file.drop off).take m).length = m ∧
      w1.log = w.log ++ [.called (.read o.si o.path off m) w.st] ∧ w1.stuck = false ∧
      perform B w code txid p (.read o off want counted) =
        (w1.sendData code txid ((file.drop off).take m) m).respond rcOk txid
          (if counted then [UInt32.ofInt m] else []) := by
  have hle := toInt32_le (Int.natCast_nonneg (wanted (file.length - off) want))
  have hwanted : wanted (file.length - off) want ≤ file.length - off := by
    unfold wanted
    split_ifs <;> omega
  have hlen : ((file.drop off).take m).length = m := by
    rw [List.length_take, List.length_drop]
    omega
  have hread : ((w.ask B (.read o.si o.path off m)).1 : ReadResult) =
      ⟨((file.drop off).take m).length, (file.drop off).take m⟩ := h.read off m
  refine ⟨(w.ask B (.read o.si o.path off m)).2, hlen, rfl, h.going, ?_⟩
  show ((readObject B w o off want).2.sendData code txid (readObject B w o off want).1.data
    (readObject B w o off want).1.rc).respond rcOk txid
      (if counted then [UInt32.ofInt (readObject B w o off want).1.rc] else []) = _
  rw [readObject_eq B w h.size_lt hoff, h.size]
  dsimp only
  rw [hm, hread]
  dsimp only
  rw [hlen, List.take_take, Nat.min_eq_right (by omega)]

theorem brings_read_iff (h : Readable B w handle o file) {off : Nat} (hoff : off < 2 ^ 63)
    {want : Int} {code : UInt16} {txid : UInt32} {p : List UInt32} {counted : Bool}
    {slice : List UInt8} :
    Brings w (perform B w code txid p (.read o off want counted)) code txid slice ↔
      ∃ m : Nat, toInt32 (wanted (file.length - off) want) = m ∧ m < 2 ^ 31 - 12 ∧
        slice = (file.drop off).take m := by
  by_cases hneg : toInt32 (wanted (file.length - off) want) < 0
  · refine iff_of_false (fun hb => ?_) (by rintro ⟨m, hm, -⟩; omega)
    have hread := readObject_eq B w h.size_lt hoff want
    rw [h.size] at hread
    exact not_brings hread (.inr hneg) hb
  · obtain ⟨m, hm⟩ := Int.eq_ofNat_of_zero_le (not_lt.mp hneg)
    obtain ⟨w1, hlen, hlog, hstuck, hw⟩ := perform_read h hoff hm code txid p counted
    rw [hw, World.respond_eq, World.sendData]
    by_cases hfits : m < 2 ^ 31 - 12
    · rw [w1.sendOne_of_le .bulkIn ctData code txid hlen.ge hfits, List.take_of_length_le hlen.le]
      generalize hcounts : (List.take 5 _).flatMap u32le = counts
      have hdrop : ((w1.note (.sent .bulkIn ⟨ctData, code, txid, (file.drop off).take m⟩)).note
          (.sent .bulkIn ⟨ctResponse, rcOk, txid, counts⟩)).log.drop w.log.length =
          [.called (.read o.si o.path off m) w.st,
            .sent .bulkIn ⟨ctData, code, txid, (file.drop off).take m⟩,
            .sent .bulkIn ⟨ctResponse, rcOk, txid, counts⟩] := by
        simp only [World.note, hlog, List.append_assoc, List.drop_left, List.cons_append,
          List.nil_append]
      constructor
      · intro hb
        obtain ⟨counts', hsent⟩ := hb.sent
        rw [containersBetween, hdrop] at hsent
        injection hsent with hdata
        injection hdata with _ _ _ hslice
        exact ⟨m, hm, hfits, hslice.symm⟩
      · rintro ⟨m', hm', -, rfl⟩
        obtain rfl : m = m' := by omega
        refine ⟨hstuck, ⟨counts, ?_⟩, ?_, ?_⟩
        · rw [containersBetween, hdrop]
          rfl
        · rw [declared_bytes, lengthField, Nat.min_eq_left (by omega)]
        · rw [hdrop]
          intro si path off' want' st hmem
          rcases List.mem_cons.mp hmem with hcall | hmem
          · cases hcall
            omega
          · simp at hmem
    · refine iff_of_false (fun hb => ?_) (by rintro ⟨m', hm', hlt, -⟩; omega)
      have hgoing := hb.going
      rw [World.sendOne, if_neg (by omega), if_pos (.inr (.inr (by omega)))] at hgoing
      cases hgoing

theorem onOut_command (h : Readable B w handle o file) (r : ReadRequest) (txid : UInt32) :
    onOut B w (r.command txid handle) = perform B w r.code txid (r.params handle)
      (.read o r.longOff r.longWant r.counted) := by
  rw [onOut_of_inactive B h.idle, r.dispatch_command B h.session, needObj, h.found]
  dsimp only
  rw [h.isFile, if_neg (by decide)]

/-- Each of the three operations answers with the bytes that are asked for, and asks nothing
senseless of the backend, exactly when the offset is none that a `long` takes for negative and the
bytes fit a container that an `int` can count. -/
theorem brings_slice_iff (h : Readable B w handle o file) (r : ReadRequest) (txid : UInt32) :
    Brings w (onOut B w (r.command txid handle)) r.code txid (r.slice file) ↔
      r.off < 2 ^ 63 ∧ (r.slice file).length < 2 ^ 31 - 12 := by
  rw [onOut_command h]
  by_cases hoff : r.off < 2 ^ 63
  · rw [r.longOff_eq hoff, brings_read_iff h hoff, and_iff_right hoff]
    constructor
    · rintro ⟨m, -, hm, hslice⟩
      have htake := List.length_take_le m (file.drop r.off)
      rw [hslice]
      omega
    · intro hfits
      obtain ⟨hwanted, hslice⟩ := r.wanted_eq file hfits
      exact ⟨_, by rw [hwanted, toInt32_of_lt (by omega)], hfits, hslice⟩
  · refine iff_of_false (not_brings rfl (.inl (r.longOff_neg (not_lt.mp hoff)))) fun hc => ?_
    exact hoff hc.1

end

/-! ### A file of five bytes -/

def sampleFile : List UInt8 := ascii "hello"

/-- A store with the file, and a backend that reads it. -/
def fileTree : Tree where
  ls dir := if dir = [] then [ascii "f"] else []
  info p := if p = ascii "f" then some ⟨false, 5, 0⟩ else none

def fileBackend : Backend Unit :=
  let stored : Backend Unit := .ofTrees (fun _ _ => fileTree) fun _ _ => (0, ())
  { stored with
    call := fun _ c =>
      match c with
      | .read _ _ off want =>
        let bytes := (sampleFile.drop off.toNat).take want.toNat
        (⟨bytes.length, bytes⟩, ())
      | c => stored.call () c }

/-- A session in which the file is in the table. -/
def fileWorld : World Unit :=
  act fileBackend (build fileBackend ⟨false, none, none, none, 1⟩ ()) openSession

def fileObj : Obj :=
  ⟨1, 0, 5, 0, fmtUndefined, false, true, 0, storageId 0, ascii "f", ascii "f"⟩

theorem readable_file : Readable fileBackend fileWorld 1 fileObj sampleFile where
  going := by decide
  idle := by decide
  session := by decide
  found := by decide
  isFile := rfl
  size := by decide
  size_lt := by decide
  read _ _ := rfl

theorem brings_slice_file :
    Brings fileWorld (onOut fileBackend fileWorld (ReadRequest.command (.part64 1 0 3) 2 1))
      opGetPartialObject64 2 (ascii "ell") :=
  (brings_slice_iff readable_file (.part64 1 0 3) 2).mpr (by decide)

/-- A byte is asked for at the offset `2 ^ 64 - 1`, where the file has none: the backend is asked to
read from the offset -1. -/
theorem brings_fails :
    Readable fileBackend fileWorld 1 fileObj sampleFile ∧
      ¬Brings fileWorld
        (onOut fileBackend fileWorld (ReadRequest.command (.part64 all all 1) 2 1))
        opGetPartialObject64 2 ((ReadRequest.part64 all all 1).slice sampleFile) := by
  refine ⟨readable_file, fun hb => ?_⟩
  have hb' := onOut_command readable_file (.part64 all all 1) 2 ▸ hb
  exact not_brings rfl (.inl (by decide)) hb'

end Usbip.Mtp
