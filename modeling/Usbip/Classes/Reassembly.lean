import Usbip.Classes.Acl
import Usbip.Lib.Access

/-! What `bt_on_out` does to the buffer that it collects ACL data in.  A payload that does not fit
behind what is there starts the buffer again, but nobody looks whether it fits at all. -/

namespace Usbip.Classes

open Lib

/-- A round of the loop: what it touches, and what the buffer holds after it unless it is the
last. -/
def AclState.round (st : AclState) (rx : List UInt8) : List Access × Option (List UInt8) :=
  match aclTotal rx with
  | none => ([], none)
  | some total =>
    if rx.length < total then ([.read 2 2], none)
    else
      ([.read 2 2] ++ (if st.hasOnAcl then [.read 0 total] else []) ++
        [.read total (rx.length - total), .write ⟨0, rx.drop total⟩], some (rx.drop total))

/-- The loop, when it ends within `fuel` rounds. -/
def AclState.loop (st : AclState) : Nat → List UInt8 → Option (List Access × AclState)
  | 0, _ => none
  | fuel + 1, rx =>
    match st.round rx with
    | (accesses, none) => some (accesses, { st with aclRx := rx })
    | (accesses, some rest) =>
      (st.loop fuel rest).map fun (more, st') => (accesses ++ more, st')

/-- What `bt_on_out` touches, and the state that it leaves in a memory in which the buffer has no
end. -/
def btOnOutAccesses (fuel : Nat) (st : AclState) (data : List UInt8) :
    Option (List Access × AclState) :=
  if data = [] then some ([], st)
  else
    let rx := st.resync data.length
    (st.loop fuel (rx ++ data)).map fun (accesses, st') => (.write ⟨rx.length, data⟩ :: accesses, st')

/-- The state after a payload, as `btOnOut` has it. -/
def btOnOutNext (st : AclState) (data : List UInt8) : Option AclState :=
  if data = [] then some st else some (st.release (st.resync data.length ++ data)).1

/-- A call ends, its accesses stay in the buffer, and `acl_have` is in range before and after. -/
def AclState.Contained (st : AclState) (data : List UInt8) : Prop :=
  st.aclRx.length ≤ btAclReasmMax ∧ ∃ fuel accesses st',
    btOnOutAccesses fuel st data = some (accesses, st') ∧
    (∀ a ∈ accesses, a.Inside btAclReasmMax) ∧ st'.aclRx.length ≤ btAclReasmMax

section

variable {st : AclState} {rx data : List UInt8}

theorem btOnOutNext_eq (h : data.length ≤ btAclReasmMax) :
    btOnOutNext st data = (btOnOut st data).map Prod.fst := by
  unfold btOnOutNext btOnOut
  split
  · rfl
  · rw [if_neg (Nat.not_lt.mpr h)]
    rfl

theorem aclTotal_some {total : Nat} (h : aclTotal rx = some total) : 4 ≤ rx.length ∧ 4 ≤ total := by
  unfold aclTotal at h
  split at h
  · rename_i hlen
    cases h
    exact ⟨hlen, Nat.le_add_right ..⟩
  · cases h

/-- The loop ends after at most as many rounds as there are bytes, and touches nothing behind
them. -/
theorem loop_ends (st : AclState) {fuel : Nat} {rx : List UInt8} (hfuel : rx.length ≤ fuel) :
    ∃ accesses, st.loop (fuel + 1) rx =
        some (accesses, { st with aclRx := (cutFrames aclTotal fuel rx).2 }) ∧
      ∀ a ∈ accesses, a.Inside rx.length := by
  induction fuel generalizing rx with
  | zero =>
    obtain rfl : rx = [] := List.eq_nil_of_length_eq_zero (Nat.le_zero.mp hfuel)
    exact ⟨[], rfl, by simp⟩
  | succ fuel ih =>
    rw [AclState.loop, AclState.round, cutFrames]
    cases htotal : aclTotal rx with
    | none => exact ⟨[], rfl, by simp⟩
    | some total =>
      obtain ⟨hlen, hpos⟩ := aclTotal_some htotal
      dsimp only
      by_cases hlt : rx.length < total
      · simp only [if_pos hlt]
        refine ⟨[.read 2 2], rfl, fun a ha => ?_⟩
        rw [List.mem_singleton.mp ha]
        exact .inr hlen
      · simp only [if_neg hlt]
        have hdrop : (rx.drop total).length = rx.length - total := List.length_drop
        obtain ⟨more, hloop, hmore⟩ := ih (hdrop.trans_le (by omega))
        rw [hloop]
        refine ⟨_, rfl, fun a ha => ?_⟩
        simp only [List.mem_append, List.mem_cons, List.not_mem_nil, or_false] at ha
        rcases ha with ((rfl | ha) | rfl | rfl) | ha
        · exact .inr hlen
        · split at ha
          · rw [List.mem_singleton.mp ha]
            exact .inr (by omega)
          · cases ha
        · exact .inr (by omega)
        · exact .inr (by simp only [Store.stop]; omega)
        · exact Access.Inside.mono (by omega) (hmore a ha)

theorem length_resync_le (st : AclState) (hfit : data.length ≤ btAclReasmMax) :
    (st.resync data.length ++ data).length ≤ btAclReasmMax := by
  unfold AclState.resync
  rw [List.length_append]
  split
  · rw [List.length_nil]
    omega
  · omega

theorem length_release_le (st : AclState) (rx : List UInt8) :
    (st.release rx).1.aclRx.length ≤ rx.length := by
  have hcut := congrArg List.length (cutFrames_append aclTotal rx.length rx)
  rw [List.length_append] at hcut
  show (cutFrames aclTotal rx.length rx).2.length ≤ rx.length
  omega

/-- A payload that fits in the buffer is put there. -/
theorem contained_of_fits (hhave : st.aclRx.length ≤ btAclReasmMax)
    (hfit : data.length ≤ btAclReasmMax) : st.Contained data := by
  refine ⟨hhave, ?_⟩
  by_cases hnil : data = []
  · exact ⟨0, [], st, if_pos hnil, by simp, hhave⟩
  · have hlen := length_resync_le st hfit
    obtain ⟨accesses, hloop, hinside⟩ :=
      loop_ends st (Nat.le_refl (st.resync data.length ++ data).length)
    refine ⟨(st.resync data.length ++ data).length + 1,
      .write ⟨(st.resync data.length).length, data⟩ :: accesses, _, ?_, ?_,
      Nat.le_trans (length_release_le st _) hlen⟩
    · rw [btOnOutAccesses, if_neg hnil]
      dsimp only
      rw [hloop]
      rfl
    · intro a ha
      rcases List.mem_cons.mp ha with rfl | ha
      · rw [List.length_append] at hlen
        exact .inr hlen
      · exact Access.Inside.mono hlen (hinside a ha)

/-- A larger one runs past the end. -/
theorem not_contained_of_large (hlarge : btAclReasmMax < data.length) : ¬st.Contained data := by
  rintro ⟨-, fuel, accesses, st', hcall, hinside, -⟩
  have hnil : data ≠ [] := List.ne_nil_of_length_pos (Nat.zero_lt_of_lt hlarge)
  rw [btOnOutAccesses, if_neg hnil] at hcall
  obtain ⟨⟨more, last⟩, -, heq⟩ := Option.map_eq_some_iff.mp hcall
  cases heq
  have hwrite : (Access.write ⟨(st.resync data.length).length, data⟩).Inside btAclReasmMax :=
    hinside _ (List.mem_cons_self ..)
  rcases hwrite with hempty | hstop
  · exact hnil hempty
  · simp only [Store.stop] at hstop
    omega

theorem contained_iff (hhave : st.aclRx.length ≤ btAclReasmMax) :
    st.Contained data ↔ data.length ≤ btAclReasmMax :=
  ⟨fun h => Nat.not_lt.mp fun hlarge => not_contained_of_large hlarge h, contained_of_fits hhave⟩

theorem length_next_le {st' : AclState} (hhave : st.aclRx.length ≤ btAclReasmMax)
    (hfit : data.length ≤ btAclReasmMax) (h : btOnOutNext st data = some st') :
    st'.aclRx.length ≤ btAclReasmMax := by
  unfold btOnOutNext at h
  split at h
  · cases h
    exact hhave
  · cases h
    exact Nat.le_trans (length_release_le _ _) (length_resync_le _ hfit)

theorem guarded_contained_iff {payloads : List (List UInt8)}
    (hhave : st.aclRx.length ≤ btAclReasmMax) :
    Guarded btOnOutNext AclState.Contained st payloads ↔
      ∀ data ∈ payloads, data.length ≤ btAclReasmMax := by
  rw [guarded_congr (I := fun st => st.aclRx.length ≤ btAclReasmMax)
    (D := fun _ data => data.length ≤ btAclReasmMax) (fun _ _ => contained_iff)
    (fun _ _ _ => length_next_le) hhave]
  induction payloads generalizing st with
  | nil => simp [Guarded]
  | cons data payloads ih =>
    rw [Guarded, List.forall_mem_cons]
    refine and_congr_right fun hfit => ?_
    obtain ⟨st', hst'⟩ : ∃ st', btOnOutNext st data = some st' := by
      unfold btOnOutNext
      split <;> exact ⟨_, rfl⟩
    rw [← ih (length_next_le hhave hfit hst')]
    constructor
    · exact fun h => h st' hst'
    · intro h t ht
      cases hst'.symm.trans ht
      exact h

end

/-- Whatever the payloads and their lengths, the buffer is respected exactly when none of them is
larger than the buffer. -/
theorem reassembly_contained_iff (hasOnAcl : Bool) (payloads : List (List UInt8)) :
    Guarded btOnOutNext AclState.Contained (.build hasOnAcl) payloads ↔
      ∀ data ∈ payloads, data.length ≤ btAclReasmMax :=
  guarded_contained_iff (Nat.zero_le _)

/-- The first payload is a byte larger than the buffer. -/
theorem reassembly_overrun :
    ¬∀ (hasOnAcl : Bool) (payloads : List (List UInt8)),
      Guarded btOnOutNext AclState.Contained (.build hasOnAcl) payloads := by
  intro h
  refine not_contained_of_large ?_ (h true [List.replicate 1025 0]).1
  rw [List.length_replicate]
  decide

end Usbip.Classes
