import Usbip.Host.Requests

/-! The strings of a device, from the calls that name them to what a host reads back: the table
hands out indexes, a host asks for one over the wire, and the wrapper makes ASCII of the answer. -/

namespace Usbip.Host

open Lib Wire Control

/-! ### The table -/

/-- `strings`, as far as `n_strings`, and the indexes in the device descriptor. -/
structure StringTable where
  strings : List (Option Text)
  iMfr : UInt8
  iProd : UInt8
  iSer : UInt8

/-- The size of `strings`. -/
def stringsCap : Nat := 16

/-- A slot gets a text, when there is one. -/
def putSlot (i : Nat) (str : Option Text) (strings : List (Option Text)) : List (Option Text) :=
  str.elim strings fun str => strings.set i (some str)

namespace StringTable

/-- The table of `usbip_device_create`: the slots 1 to 3 are reserved. -/
def create : StringTable := ⟨[none, none, none, none], 0, 0, 0⟩

variable (tab : StringTable)

/-- `usbip_device_set_strings`. -/
def setStrings (mfr product serial : Option Text) : StringTable where
  strings := putSlot 3 serial (putSlot 2 product (putSlot 1 mfr tab.strings))
  iMfr := if mfr.isSome then 1 else tab.iMfr
  iProd := if product.isSome then 2 else tab.iProd
  iSer := if serial.isSome then 3 else tab.iSer

/-- `usbip_device_add_string`, with its return value. -/
def addString (str : Text) : StringTable × Nat :=
  if stringsCap ≤ tab.strings.length then (tab, 0)
  else ({ tab with strings := tab.strings ++ [some str] }, tab.strings.length)

end StringTable

/-- A call that names strings. -/
inductive StringAct
  | setStrings (mfr product serial : Option Text)
  | addString (str : Text)

def StringTable.apply (tab : StringTable) : StringAct → StringTable
  | .setStrings mfr product serial => tab.setStrings mfr product serial
  | .addString str => (tab.addString str).1

def StringTable.run (tab : StringTable) (acts : List StringAct) : StringTable :=
  acts.foldl StringTable.apply tab

/-! ### The names -/

/-- What the table stands for: the text of each index, and the next index to hand out. -/
structure Names where
  text : Nat → Option Text
  next : Nat

namespace Names

def create : Names := ⟨fun _ => none, 4⟩

variable (names : Names)

/-- The text of an index becomes `str`, when there is one. -/
def give (i : Nat) (str : Option Text) : Names :=
  { names with text := fun j => if j = i then str.or (names.text j) else names.text j }

def apply : StringAct → Names
  | .setStrings mfr product serial => ((names.give 1 mfr).give 2 product).give 3 serial
  | .addString str =>
    if names.next < stringsCap then { names.give names.next (some str) with next := names.next + 1 }
    else names

def run (acts : List StringAct) : Names := acts.foldl Names.apply names

end Names

/-- The slots hold the names. -/
structure Represents (strings : List (Option Text)) (names : Names) : Prop where
  length : strings.length = names.next
  reserved : 4 ≤ names.next
  fits : names.next ≤ stringsCap
  text : ∀ i, (strings[i]?).join = names.text i

namespace Represents

variable {strings : List (Option Text)} {tab : StringTable} {names : Names}

theorem create : Represents StringTable.create.strings .create where
  length := rfl
  reserved := Nat.le_refl 4
  fits := by decide
  text i := by
    rcases i with _ | _ | _ | _ | i <;> rfl

theorem putSlot (h : Represents strings names) {i : Nat} (hi : i < 4) (str : Option Text) :
    Represents (putSlot i str strings) (names.give i str) := by
  have hlen : i < strings.length := by
    rw [h.length]
    exact Nat.lt_of_lt_of_le hi h.reserved
  cases str with
  | none => exact ⟨h.length, h.reserved, h.fits, fun j => (h.text j).trans (by simp [Names.give])⟩
  | some str =>
    refine ⟨List.length_set.trans h.length, h.reserved, h.fits, fun j => ?_⟩
    show ((strings.set i (some str))[j]?).join = if j = i then some str else names.text j
    by_cases hj : j = i
    · subst hj
      rw [List.getElem?_set_self hlen, if_pos rfl]
      rfl
    · rw [List.getElem?_set_ne (Ne.symm hj), if_neg hj]
      exact h.text j

theorem addString (h : Represents tab.strings names) (str : Text) :
    Represents (tab.addString str).1.strings (names.apply (.addString str)) ∧
      (tab.addString str).2 = if names.next < stringsCap then names.next else 0 := by
  have hlen := h.length
  rw [StringTable.addString, Names.apply, hlen]
  by_cases hfull : stringsCap ≤ names.next
  · rw [if_pos hfull, if_neg (Nat.not_lt.mpr hfull), if_neg (Nat.not_lt.mpr hfull)]
    exact ⟨h, rfl⟩
  · have hroom := Nat.not_le.mp hfull
    rw [if_neg hfull, if_pos hroom, if_pos hroom]
    refine ⟨⟨?_, Nat.le_succ_of_le h.reserved, hroom, fun i => ?_⟩, rfl⟩
    · rw [List.length_append, hlen, List.length_singleton]
    · show ((tab.strings ++ [some str])[i]?).join =
        if i = names.next then some str else names.text i
      by_cases hi : i = names.next
      · rw [if_pos hi, hi, ← hlen, List.getElem?_concat_length]
        rfl
      · rw [if_neg hi, ← h.text i]
        by_cases hlt : i < tab.strings.length
        · rw [List.getElem?_append_left hlt]
        · have hout : (tab.strings ++ [some str]).length ≤ i := by
            rw [List.length_append, List.length_singleton]
            omega
          rw [List.getElem?_eq_none hout, List.getElem?_eq_none (by omega)]

theorem apply (h : Represents tab.strings names) (act : StringAct) :
    Represents (tab.apply act).strings (names.apply act) := by
  cases act with
  | addString str => exact (h.addString str).1
  | setStrings mfr product serial =>
    apply putSlot
    · apply putSlot
      · exact h.putSlot (by decide) mfr
      · decide
    · decide

theorem run (h : Represents tab.strings names) (acts : List StringAct) :
    Represents (tab.run acts).strings (names.run acts) := by
  induction acts generalizing tab names with
  | nil => exact h
  | cons act acts ih => exact ih (h.apply act)

end Represents

/-- An index that was handed out keeps its text. -/
theorem Names.text_run (names : Names) {i : Nat} (hpos : 4 ≤ i) (hi : i < names.next)
    (acts : List StringAct) : (names.run acts).text i = names.text i := by
  induction acts generalizing names with
  | nil => rfl
  | cons act acts ih =>
    have hstep : (names.apply act).text i = names.text i ∧ i < (names.apply act).next := by
      cases act with
      | setStrings mfr product serial =>
        have h1 : i ≠ 1 := by omega
        have h2 : i ≠ 2 := by omega
        have h3 : i ≠ 3 := by omega
        simp [apply, give, h1, h2, h3, hi]
      | addString str =>
        have hne : i ≠ names.next := Nat.ne_of_lt hi
        rw [apply]
        split
        · exact ⟨if_neg hne, Nat.lt_succ_of_lt hi⟩
        · exact ⟨rfl, hi⟩
    exact (ih _ hstep.2).trans hstep.1

/-- The index that `usbip_device_add_string` returns is that of its string from then on. -/
theorem addString_kept {before : List StringAct} {str : Text}
    (hindex : ((StringTable.create.run before).addString str).2 ≠ 0) (after : List StringAct) :
    (Names.create.run (before ++ .addString str :: after)).text
      ((StringTable.create.run before).addString str).2 = some str := by
  have hbefore := Represents.create.run before
  obtain ⟨hadded, hreturned⟩ := hbefore.addString str
  rw [hreturned] at hindex ⊢
  generalize hnames : Names.create.run before = names at *
  have hrun : Names.create.run (before ++ .addString str :: after) =
      (names.apply (.addString str)).run after := by
    rw [← hnames, Names.run, List.foldl_append]
    rfl
  by_cases hroom : names.next < stringsCap
  · have happly : names.apply (.addString str) =
        { names.give names.next (some str) with next := names.next + 1 } := if_pos hroom
    have hnext : names.next < (names.apply (.addString str)).next := by
      rw [happly]
      exact Nat.lt_succ_self _
    rw [if_pos hroom, hrun, Names.text_run _ hbefore.reserved hnext, happly]
    exact if_pos rfl
  · exact absurd (if_neg hroom) hindex

/-! ### The host -/

/-- What a caller with `length` bytes of room reads of a string.  The length of its descriptor is told
in one byte. -/
def reading (str : Text) (length : Nat) : Int × List UInt8 :=
  let text := (str.val.take ((str.length + 1) % 128 - 1)).take (length - 1)
  ((text.length : Int), text)

theorem utf16_take (str : List UInt8) (k : Nat) :
    (utf16 str 0).take (2 * k) = utf16 (str.take k) 0 := by
  simp only [utf16, Nat.mul_zero, List.replicate_zero, List.append_nil]
  induction k generalizing str with
  | zero => rfl
  | succ k ih =>
    cases str with
    | nil => rfl
    | cons a str => exact congrArg (fun rest => a :: 0 :: rest) (ih str)

theorem asciiReply_of (reply : List UInt8) (hlong : 2 ≤ reply.length) (hkind : byteAt reply 1 = 3)
    (length : Nat) : asciiReply length (.of 0 reply.length reply) =
      let text := (asciiOf ((reply.take (min (byteAt reply 0).toNat reply.length)).drop 2)).take
        (length - 1)
      ((text.length : Int), text) := by
  have hok : (Outcome.of 0 reply.length reply).rc = 0 := rfl
  have hactual : (Outcome.of 0 reply.length reply).actual = reply.length := rfl
  have hdata : (Outcome.of 0 reply.length reply).data = reply := rfl
  rw [asciiReply, hok, hactual, hdata, if_neg (by decide), if_neg]
  · rfl
  · rintro (hshort | hother)
    · omega
    · exact hother hkind

/-- The wrapper makes the text of as much of a descriptor as its first byte tells. -/
theorem asciiReply_stringDesc (str : Text) (length : Nat) (c : Nat → UInt8) :
    asciiReply length (.of 0 (min (Described.stringDesc str).len 256 : Nat)
      (((Described.stringDesc str).reply c).take 256)) = reading str length := by
  rw [stringDesc_reply]
  generalize hreply : ([(2 + 2 * str.length).toUInt8] ++ ([3] ++ utf16 str.val 0)).take 256 = reply
  have hcons : reply = (2 + 2 * str.length).toUInt8 :: 3 :: (utf16 str.val 0).take 254 := hreply.symm
  have hlen : reply.length = min (2 + 2 * str.length) 256 := by
    rw [hcons, List.length_cons, List.length_cons, List.length_take, utf16_length, utf16Bytes,
      Nat.add_zero, Text.length]
    omega
  have hfirst : (byteAt reply 0).toNat = 2 * ((str.length + 1) % 128) := by
    rw [hcons]
    show (2 + 2 * str.length) % 256 = _
    omega
  have hcount : min (byteAt reply 0).toNat reply.length = 2 * ((str.length + 1) % 128) := by
    rw [hfirst, hlen]
    omega
  have hdrop : reply.drop 2 = (utf16 str.val 0).take 254 := by rw [hcons]; rfl
  have hsub : 2 * ((str.length + 1) % 128) - 2 = 2 * ((str.length + 1) % 128 - 1) := by omega
  have htext : asciiOf ((reply.take (2 * ((str.length + 1) % 128))).drop 2) =
      str.val.take ((str.length + 1) % 128 - 1) := by
    rw [List.drop_take, hdrop, hsub, List.take_take, Nat.min_eq_left (by omega), utf16_take,
      asciiOf_utf16]
  have hof := asciiReply_of reply (by omega) (by rw [hcons]; rfl) length
  rw [hcount, htext, hlen] at hof
  exact hof

theorem askedString_eq {d : Described} {index : UInt8} (hindex : index ≠ 0)
    (hos : index = 0xee → d.msos.length = 0) : d.askedString index =
      (d.strings[index.toNat]?.join.elim .unsupported .string : Asked) := by
  rw [Described.askedString, if_neg hindex, if_neg fun h => h.2 (hos h.1)]
  cases d.strings[index.toNat]? with
  | none => rfl
  | some slot => cases slot <;> rfl

theorem asked_getString {d : Described} {index : UInt8} (hindex : index ≠ 0)
    (hos : index = 0xee → d.msos.length = 0) : d.asked (getDescriptor 3 index 0x0409 256).setup =
      some (d.strings[index.toNat]?.join.elim .unsupported .string) := by
  rw [asked_getDescriptor, if_neg (by decide), if_neg (by decide), if_pos rfl,
    askedString_eq hindex hos]

section

variable {σ : Type} {dev : ControlDevice σ} {st : σ}

/-- An index that the table has is read back as its text, and any other is a stall. -/
theorem run_getString {index : UInt8} (hindex : index ≠ 0)
    (hos : index = 0xee → (dev.described st).msos.length = 0) {length : Nat} (hlength : 1 ≤ length)
    (frames : Nat → Stack) :
    (libusbGetStringDescriptorAscii index length).run (serveLocal dev) (st, frames) =
      ((st, fun i => frames (i + 1)),
        ((dev.described st).strings[index.toNat]?).join.elim (usbErrorPipe, []) fun str =>
          reading str length) := by
  have hasked := asked_getString hindex hos
  have hin := ControlCall.isIn_read 0x06 ((3 : UInt8).toUInt16 <<< 8 ||| index.toUInt16) 0x0409 256
  have hroom : ¬length < 1 := Nat.not_lt.mpr hlength
  rw [libusbGetStringDescriptorAscii, if_neg hroom, Calls.run, serveLocal]
  cases hslot : ((dev.described st).strings[index.toNat]?).join with
  | none =>
    rw [hslot] at hasked
    rw [serve_unsupported hasked rfl rfl hin]
    rfl
  | some str =>
    rw [hslot] at hasked
    have hserve := serve_answer hasked rfl (by rfl) hin (frames 0)
    rw [Calls.run, hserve]
    exact congrArg (Prod.mk _) (asciiReply_stringDesc str length _)

theorem fits_getString {index : UInt8} (hindex : index ≠ 0)
    (hos : index = 0xee → (dev.described st).msos.length = 0)
    (hfits : ∀ str, some str ∈ (dev.described st).strings → str.length ≤ 2047) :
    dev.Fits st (getDescriptor 3 index 0x0409 256).setup := by
  rw [ControlDevice.Fits, Described.Fits, asked_getString hindex hos]
  cases hslot : ((dev.described st).strings[index.toNat]?).join with
  | none => trivial
  | some str => exact hfits str (List.mem_of_getElem? (Option.join_eq_some_iff.mp hslot))

/-- After any calls that name strings, a host that asks over the wire for an index gets the text that
was last given to it, and a stall for one that none was given to. -/
theorem strings_read (dev : ControlDevice σ) {st : σ} (acts : List StringAct)
    (hdev : (dev.described st).strings = (StringTable.create.run acts).strings)
    (hfits : ∀ str, some str ∈ (dev.described st).strings → str.length ≤ 2047)
    {index : UInt8} (hindex : index ≠ 0)
    (hos : index = 0xee → (dev.described st).msos.length = 0) {length : Nat} (hlength : 1 ≤ length)
    (devid : UInt32) (frames : Nat → Stack) (seq : UInt32) : ∃ seq',
      (controlLink dev devid).run ⟨(st, frames), seq, [], []⟩
          (libusbGetStringDescriptorAscii index length) =
        some (⟨(st, fun i => frames (i + 1)), seq', [], []⟩,
          ((Names.create.run acts).text index.toNat).elim (usbErrorPipe, []) fun str =>
            reading str length) := by
  have hmeets : (libusbGetStringDescriptorAscii index length).Meets (serveLocal dev)
      (fun s q => dev.Fits s.1 q.setup) (st, frames) := by
    rw [libusbGetStringDescriptorAscii, if_neg (Nat.not_lt.mpr hlength)]
    exact ⟨fits_getString hindex hos hfits, trivial⟩
  obtain ⟨seq', hrun⟩ := (controlLink_carries dev devid).run_eq hmeets seq
  have hnames := (Represents.create.run acts).text index.toNat
  rw [← hdev] at hnames
  exact ⟨seq', by rw [hrun, run_getString hindex hos hlength, hnames]⟩

end

/-- A product name, and a string of the application. -/
def namedActs : List StringAct :=
  [.setStrings none (some ⟨[0x61, 0x62], by decide⟩) none, .addString ⟨[0x78], by decide⟩]

def namedDevice : Described :=
  { withFallback with strings := (StringTable.create.run namedActs).strings }

theorem strings_read_named : ∃ seq,
    (controlLink (.still namedDevice fun _ => fillAll) 0x10001).run
        ⟨((), fun _ => ⟨.zero, fun _ => 0⟩), 0, [], []⟩ (libusbGetStringDescriptorAscii 4 64) =
      some (⟨((), fun _ => ⟨.zero, fun _ => 0⟩), seq, [], []⟩, (1, [0x78])) :=
  strings_read (.still namedDevice fun _ => fillAll) namedActs rfl
    (by
      intro str hstr
      have hmem : some str ∈ [none, none, some ⟨[0x61, 0x62], by decide⟩, none,
        some ⟨[0x78], by decide⟩] := hstr
      simp only [List.mem_cons, reduceCtorEq, Option.some.injEq, List.not_mem_nil, or_false,
        false_or] at hmem
      rcases hmem with rfl | rfl <;> decide)
    (by decide) (by decide) (by decide) 0x10001 (fun _ => ⟨.zero, fun _ => 0⟩) 0

end Usbip.Host
