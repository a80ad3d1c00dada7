import Usbip.Lib.Frames
import Usbip.Mtp.Turns

/-! The data of a command in pieces.  Its container tells its own length, and nothing is done with
it before all of it is there. -/

namespace Usbip.Mtp

open Lib Control

/-- A container with the length that it declares, as the data of a command. -/
structure DataContainer where
  bytes : List UInt8
  header : 12 ≤ bytes.length
  declared : (getLe32 bytes).toNat = bytes.length
  fits : bytes.length < 2 ^ 31

namespace DataContainer

variable (data : DataContainer)

theorem ne_nil : [] ≠ data.bytes := by
  intro h
  have := data.header
  rw [← h] at this
  cases this

theorem whole : Whole data.bytes := ⟨data.header, Nat.le_of_eq data.declared⟩

/-- The host has sent a part of it. -/
theorem not_whole {held : List UInt8} (h : held <+: data.bytes) (hne : held ≠ data.bytes) :
    ¬Whole held := by
  rintro ⟨hheader, hlen⟩
  obtain ⟨rest, hrest⟩ := h
  have hdeclared := data.declared
  rw [← hrest, getLe32_append (by omega), List.length_append] at hdeclared
  refine hne ?_
  rw [← hrest, List.eq_nil_of_length_eq_zero (show rest.length = 0 by omega), List.append_nil]

end DataContainer

section
variable {β : Type} {B : Backend β} {w : World β}

/-- A command that begins a data phase empties the buffer. -/
theorem rx_begun {command : List UInt8} (hidle : w.st.rxActive = false)
    (hdata : (onOut B w command).st.rxActive = true) :
    (onOut B w command).st.rxBuf = [] ∧ (onOut B w command).st.rxNeed = needOf [] := by
  rw [onOut_of_inactive B hidle, dispatch] at hdata ⊢
  split at hdata
  · exact absurd (hidle.symm.trans hdata) (by decide)
  · dsimp only at hdata ⊢
    split at hdata
    · rw [World.respond_st] at hdata
      exact absurd (hidle.symm.trans hdata) (by decide)
    · next hlen hopen =>
      rw [if_neg hlen, if_neg hopen]
      have hsame := MtpState.SameBut.perform B w (getLe16 (command.drop 6))
        (getLe32 (command.drop 8)) (paramsOf command)
        (plan B.dateText w.st (getLe16 (command.drop 6)) (paramsOf command))
      generalize plan B.dateText w.st (getLe16 (command.drop 6)) (paramsOf command) = o at *
      rw [hsame.rxActive] at hdata
      rw [hsame]
      cases o with
      | beginRx => exact ⟨rfl, rfl⟩
      | answer | dataset | storageInfo | setSession | read | remove | rename | moveAcross | copy
      | truncate | hang => exact absurd (hidle.symm.trans hdata) (by decide)

/-- An empty chunk between commands is nothing. -/
theorem onOut_nil (hidle : w.st.rxActive = false) : onOut B w [] = w := by
  rw [onOut_of_inactive B hidle, dispatch]
  rfl

/-- The class with a part of a container in its buffer. -/
def World.holding (w : World β) (held : List UInt8) : World β :=
  w.setSt { w.st with rxBuf := held, rxNeed := needOf held }

theorem fill_holding (w : World β) (held chunk : List UInt8) :
    (w.holding held).st.fill chunk = (w.holding (held ++ chunk)).st := by
  have hneed : (w.holding held).st.rxNeed = needOf (w.holding held).st.rxBuf := rfl
  exact congrArg (fun need => { w.st with rxBuf := held ++ chunk, rxNeed := need })
    (fill_need hneed chunk)

theorem onOut_part (hrx : w.st.rxActive = true) (data : DataContainer) {held chunk : List UInt8}
    (hpart : held ++ chunk <+: data.bytes) (hne : held ++ chunk ≠ data.bytes) :
    onOut B (w.holding held) chunk = w.holding (held ++ chunk) := by
  have hwhole : ((w.holding held).st.fill chunk).whole = false :=
    Bool.eq_false_iff.mpr fun h => data.not_whole hpart hne ((fill_whole rfl chunk).mp h)
  have hactive : (w.holding held).st.rxActive = true := hrx
  rw [onOut_of_not_whole B hactive hwhole, fill_holding]
  rfl

theorem onOut_last (hrx : w.st.rxActive = true) (data : DataContainer) {held chunk : List UInt8}
    (hall : held ++ chunk = data.bytes) :
    onOut B (w.holding held) chunk =
      completeRx B (w.setSt (w.holding data.bytes).st.endRx) := by
  have hwhole : ((w.holding held).st.fill chunk).whole = true :=
    (fill_whole rfl chunk).mpr (hall ▸ data.whole)
  have hactive : (w.holding held).st.rxActive = true := hrx
  rw [onOut_of_whole B hactive hwhole, fill_holding, hall]
  rfl

/-- However the data of a command is cut, also with empty pieces and with empty pieces behind it, it
leaves the same state, has made the same calls and has brought the same containers as in one
piece. -/
theorem onOut_pieces {command : List UInt8} (hidle : w.st.rxActive = false)
    (hdata : (onOut B w command).st.rxActive = true) (data : DataContainer)
    {chunks : List (List UInt8)} (hcut : chunks.flatten = data.bytes) :
    chunks.foldl (onOut B) (onOut B w command) = onOut B (onOut B w command) data.bytes := by
  obtain ⟨hbuf, hneed⟩ := rx_begun hidle hdata
  generalize onOut B w command = w' at *
  have hstart : w'.holding [] = w' := by
    rw [World.holding, ← hneed, ← hbuf]
    rfl
  have hlast : ∀ held chunk, held ++ chunk = data.bytes →
      onOut B (w'.holding held) chunk = onOut B (w'.holding []) data.bytes := by
    intro held chunk hall
    rw [onOut_last hdata data hall, onOut_last hdata data (List.nil_append _)]
  have hend : onOut B (onOut B (w'.holding []) data.bytes) [] =
      onOut B (w'.holding []) data.bytes := by
    apply onOut_nil
    rw [onOut_last hdata data (List.nil_append _), (completeRx_keeps B _).2.2]
    rfl
  have hpieces := foldl_message (fun held chunk => onOut_part hdata data)
    (fun held chunk hall _ => hlast held chunk hall) hend data.ne_nil hcut
  rwa [hstart] at hpieces

end

/-- The data of a command that makes a directory, in pieces. -/
def sampleData : DataContainer where
  bytes := Container.bytes ⟨2, opSendObjectInfo, 2,
    List.replicate 4 0 ++ Device.u16le fmtAssociation ++ List.replicate 46 0 ++ bstr (ascii "n")⟩
  header := by decide
  declared := by decide
  fits := by decide

theorem onOut_pieces_sample :
    [[], sampleData.bytes.take 5, [], sampleData.bytes.drop 5, []].foldl (onOut sampleBackend)
        (onOut sampleBackend (act sampleBackend sampleStart openSession)
          (Container.bytes ⟨1, opSendObjectInfo, 2, u32le (storageId 0) ++ u32le 0⟩)) =
      onOut sampleBackend
        (onOut sampleBackend (act sampleBackend sampleStart openSession)
          (Container.bytes ⟨1, opSendObjectInfo, 2, u32le (storageId 0) ++ u32le 0⟩))
        sampleData.bytes :=
  onOut_pieces (by decide) (by decide) sampleData (by decide)

end Usbip.Mtp
