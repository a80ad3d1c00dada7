import Usbip.Lib.Counted
import Usbip.Lib.Run

/-! The devices of the libusb wrapper: who refers to them, and when they are freed.  The calls of
the library run on any threads, from one lock-delimited section to the next. -/

namespace Usbip.Libusb

open Lib

/-- A `struct libusb_device`. -/
abbrev ObjId := Nat

/-- Where a call of the library is. -/
inductive Course
  /-- `libusb_get_device_list` has made some devices and is to make more, for the application or for
  `libusb_open_device_with_vid_pid` -/
  | listing (made : List ObjId) (left : Nat) (ids : Bool)
  /-- `libusb_open`, on a device of the application or on one of a list of its own -/
  | opening (d : ObjId) (list : Option (List ObjId))
  /-- the device is imported and there is a handle for it -/
  | referring (d : ObjId) (list : Option (List ObjId))
  /-- `libusb_ref_device` of the application -/
  | ref (d : ObjId)
  /-- `libusb_unref_device`, with the devices that come after this one and the handle to return -/
  | unref (d : ObjId) (rest : List ObjId) (handle : Option ObjId)
  /-- the last reference is gone, and so is the lock -/
  | freeing (d : ObjId) (rest : List ObjId) (handle : Option ObjId)
  | returned
  deriving DecidableEq, Repr

/-- The devices that are allocated, with their counters, the calls that run, and what the
application has: references of its own, lists, and handles, each of these for its device. -/
structure Devices where
  refcnt : ObjId → Option Int
  calls : List Course
  refs : List ObjId
  lists : List (List ObjId)
  handles : List ObjId

/-- What a section meets: the memory that `calloc` gives, the device with the ids, and whether
the import succeeds and there is memory for the handle. -/
structure Meets where
  calloc : Option ObjId
  pick : Option Nat
  imported : Bool

inductive DevicesAct
  | getDeviceList (count : Nat)
  | openDeviceWithVidPid (count : Nat)
  | openDevice (d : ObjId)
  | refDevice (d : ObjId)
  | unrefDevice (d : ObjId)
  | freeDeviceList (list : List ObjId) (unrefDevices : Bool)
  | close (d : ObjId)
  | run (i : Nat) (env : Meets)

namespace Course

/-- The references that a call has. -/
def owns : Course → List ObjId
  | listing made _ _ => made
  | opening _ list | referring _ list => list.getD []
  | unref d rest handle => d :: (rest ++ handle.toList)
  | freeing _ rest handle => rest ++ handle.toList
  | ref _ | returned => []

def dies : Course → List ObjId
  | freeing d _ _ => [d]
  | _ => []

/-- The devices for which a call relies on a reference of the application. -/
def borrows : Course → List ObjId
  | opening d none | referring d none | ref d => [d]
  | _ => []

/-- The devices that nobody else knows of. -/
def made : Course → List ObjId
  | listing made _ _ => made
  | _ => []

/-- The device to be opened is one of the list. -/
def Within : Course → Prop
  | opening d (some list) | referring d (some list) => d ∈ list
  | _ => True

/-- The sections that are left of a call, at most. -/
def sections : Course → Nat
  | listing made left ids => left + 1 + if ids then 2 + 2 * (made.length + left) else 0
  | opening _ list => 2 + 2 * (list.getD []).length
  | referring _ list => 1 + 2 * (list.getD []).length
  | ref _ => 1
  | unref _ rest _ => 2 + 2 * rest.length
  | freeing _ rest _ => 1 + 2 * rest.length
  | returned => 0

end Course

/-- A section of call `i`. -/
def DevicesAct.ofCall (i : Nat) : DevicesAct → Bool
  | .run j _ => j = i
  | _ => false

namespace Devices

def new : Devices := ⟨fun _ => none, [], [], [], []⟩

def setRefcnt (s : Devices) (d : ObjId) (n : Option Int) : Devices :=
  { s with refcnt := Function.update s.refcnt d n }

/-- `libusb_get_device_list` without memory for the next device. -/
def freeEach (s : Devices) (made : List ObjId) : Devices :=
  { s with refcnt := fun d => if d ∈ made then none else s.refcnt d }

/-- The loop of `libusb_free_device_list`, and the return of the call around it. -/
def unrefAll (s : Devices) : List ObjId → Option ObjId → Devices × Course
  | d :: rest, handle => (s, .unref d rest handle)
  | [], handle => ({ s with handles := s.handles ++ handle.toList }, .returned)

/-- The next section of a call, where it uses no device that is not allocated. -/
def proceed (s : Devices) (env : Meets) : Course → Option (Devices × Course)
  | .listing made (left + 1) ids =>
    match env.calloc with
    | some d =>
      if s.refcnt d = none then some (s.setRefcnt d (some 1), .listing (made ++ [d]) left ids)
      else none
    | none =>
      if made.Nodup ∧ ∀ d ∈ made, s.refcnt d ≠ none then some (s.freeEach made, .returned)
      else none
  | .listing made 0 ids =>
    if ids then
      -- the ids of the listed devices are read
      if ∀ d ∈ made, s.refcnt d ≠ none then
        match env.pick.bind fun k => made[k]? with
        | some d => some (s, .opening d (some made))
        | none => some (s.unrefAll made none)
      else none
    else some ({ s with lists := s.lists ++ [made] }, .returned)
  | .opening d list =>
    if s.refcnt d = none then none
    else if env.imported then some (s, .referring d list)
    else some (s.unrefAll (list.getD []) none)
  | .referring d list =>
    (s.refcnt d).map fun n => (s.setRefcnt d (some (n + 1))).unrefAll (list.getD []) (some d)
  | .ref d =>
    (s.refcnt d).map fun n =>
      ({ s.setRefcnt d (some (n + 1)) with refs := s.refs ++ [d] }, .returned)
  | .unref d rest handle =>
    (s.refcnt d).map fun n =>
      if n - 1 ≤ 0 then (s.setRefcnt d (some (n - 1)), .freeing d rest handle)
      else (s.setRefcnt d (some (n - 1))).unrefAll rest handle
  | .freeing d rest handle =>
    (s.refcnt d).map fun _ => (s.setRefcnt d none).unrefAll rest handle
  | .returned => none

def start (s : Devices) (c : Course) : Devices := { s with calls := s.calls ++ [c] }

/-- The state after a section of a call. -/
def after (s : Devices) (i : Nat) (next : Devices × Course) : Devices :=
  { next.1 with calls := s.calls.set i next.2 }

def step (s : Devices) : DevicesAct → Option Devices
  | .getDeviceList count => some (s.start (.listing [] count false))
  | .openDeviceWithVidPid count => some (s.start (.listing [] count true))
  | .openDevice d => some (s.start (.opening d none))
  | .refDevice d => some (s.start (.ref d))
  | .unrefDevice d => some ({ s with refs := s.refs.erase d }.start (.unref d [] none))
  | .freeDeviceList list unrefDevices =>
    if unrefDevices then
      let all := { s with lists := s.lists.erase list }.unrefAll list none
      some (all.1.start all.2)
    else some { s with lists := s.lists.erase list, refs := s.refs ++ list }
  | .close d => some ({ s with handles := s.handles.erase d }.start (.unref d [] none))
  | .run i env => s.calls[i]?.bind fun c => (s.proceed env c).map (s.after i)

/-- The references of the application. -/
def held (s : Devices) : List ObjId := s.refs ++ s.lists.flatten ++ s.handles

def borrowed (s : Devices) : List ObjId := s.calls.flatMap Course.borrows

/-- What an application may do: it gives a device to a call only as long as it has a reference to
it, gives back what it has, and keeps a reference to a device while a call relies on it. -/
def Proper (s : Devices) : DevicesAct → Prop
  | .getDeviceList _ | .openDeviceWithVidPid _ | .run _ _ => True
  | .openDevice d | .refDevice d => d ∈ s.held
  | .unrefDevice d =>
    d ∈ s.refs ∧ ∀ x ∈ s.borrowed, x ∈ ({ s with refs := s.refs.erase d } : Devices).held
  | .freeDeviceList list unrefDevices => list ∈ s.lists ∧ (unrefDevices = true →
    ∀ x ∈ s.borrowed, x ∈ ({ s with lists := s.lists.erase list } : Devices).held)
  | .close d =>
    d ∈ s.handles ∧ ∀ x ∈ s.borrowed, x ∈ ({ s with handles := s.handles.erase d } : Devices).held

instance (s : Devices) : DecidablePred s.Proper
  | .getDeviceList _ | .openDeviceWithVidPid _ | .run _ _ => isTrue trivial
  | .openDevice d | .refDevice d => inferInstanceAs (Decidable (d ∈ s.held))
  | .unrefDevice _ | .freeDeviceList _ _ | .close _ => inferInstanceAs (Decidable (_ ∧ _))

/-! ### The references of an application and of the calls -/

def counts (s : Devices) : Counts ObjId where
  counter := s.refcnt
  owned d := s.held.count d + tally Course.owns s.calls d
  dying := tally Course.dies s.calls

/-- What every section and every call of the application keeps. -/
structure Kept (s : Devices) : Prop where
  sound : s.counts.Sound
  borrowed : ∀ d ∈ s.borrowed, d ∈ s.held
  within : ∀ c ∈ s.calls, c.Within
  alone : ∀ c ∈ s.calls, ∀ d ∈ c.made, s.counts.owned d = 1

variable {s t : Devices} {c c' : Course} {i : Nat}

theorem count_held (s : Devices) (x : ObjId) :
    s.held.count x = s.refs.count x + s.lists.flatten.count x + s.handles.count x := by
  rw [held, List.count_append, List.count_append]

/-- What is to be given back is given to the rest of the call. -/
structure Passed (s : Devices) (list : List ObjId) (handle : Option ObjId) (t : Devices)
    (c : Course) : Prop where
  calls : t.calls = s.calls
  refcnt : t.refcnt = s.refcnt
  count : ∀ x, t.held.count x + c.owns.count x =
    s.held.count x + list.count x + handle.toList.count x
  held : ∀ x ∈ s.held, x ∈ t.held
  dies : c.dies = []
  borrows : c.borrows = []
  made : c.made = []
  within : c.Within

theorem unrefAll_passed (s : Devices) (list : List ObjId) (handle : Option ObjId) :
    Passed s list handle (s.unrefAll list handle).1 (s.unrefAll list handle).2 := by
  cases list with
  | nil =>
    refine ⟨rfl, rfl, fun x => ?_, fun x hx => ?_, rfl, rfl, rfl, trivial⟩
    · simp [unrefAll, count_held, Course.owns]
      omega
    · simp only [Devices.held, unrefAll, List.mem_append] at hx ⊢
      tauto
  | cons d rest =>
    refine ⟨rfl, rfl, fun x => ?_, fun x hx => hx, rfl, rfl, rfl, trivial⟩
    simp [unrefAll, Course.owns, List.count_cons]
    omega

theorem Passed.of_eq {list : List ObjId} {handle : Option ObjId}
    (h : s.unrefAll list handle = (t, c)) : Passed s list handle t c := by
  have hpass := unrefAll_passed s list handle
  rwa [h] at hpass

/-! ### A section -/

theorem count_one (d x : ObjId) : [d].count x = if x = d then 1 else 0 := by
  by_cases hx : x = d
  · rw [if_pos hx, hx, List.count_singleton_self]
  · rw [if_neg hx, List.count_eq_zero, List.mem_singleton]
    exact hx

theorem owned_after (hi : s.calls[i]? = some c) (t : Devices) (c' : Course) (x : ObjId) :
    (s.after i (t, c')).counts.owned x + c.owns.count x =
      t.held.count x + tally Course.owns s.calls x + c'.owns.count x := by
  have hset := tally_set Course.owns hi c' x
  show t.held.count x + tally Course.owns (s.calls.set i c') x + _ = _
  omega

theorem dying_after (hi : s.calls[i]? = some c) (t : Devices) (c' : Course) (x : ObjId) :
    (s.after i (t, c')).counts.dying x + c.dies.count x = s.counts.dying x + c'.dies.count x :=
  tally_set Course.dies hi c' x

theorem owned_passed (hi : s.calls[i]? = some c) {u : Devices} {list : List ObjId}
    {handle : Option ObjId} (h : Passed u list handle t c') (hheld : u.held = s.held) (x : ObjId) :
    (s.after i (t, c')).counts.owned x + c.owns.count x =
      s.counts.owned x + list.count x + handle.toList.count x := by
  have hafter := owned_after hi t c' x
  have hcount := h.count x
  rw [hheld] at hcount
  show _ = s.held.count x + tally Course.owns s.calls x + _ + _
  omega

theorem dying_passed (hi : s.calls[i]? = some c) {u : Devices} {list : List ObjId}
    {handle : Option ObjId} (h : Passed u list handle t c') (x : ObjId) :
    (s.after i (t, c')).counts.dying x + c.dies.count x = s.counts.dying x := by
  rw [dying_after hi, h.dies, List.count_nil, Nat.add_zero]

/-- What a section of a call does: it changes the counters soundly, and lets those devices be that
are neither its own nor the application's. -/
structure Proceeds (s : Devices) (i : Nat) (c : Course) (t : Devices) (c' : Course) : Prop where
  step : s.counts.Step (s.after i (t, c')).counts
  others : ∀ x, s.counts.owned x = 1 → c.owns.count x = 0 → s.held.count x = 0 →
    (s.after i (t, c')).counts.owned x = 1
  held : ∀ x ∈ s.held, x ∈ t.held
  borrows : ∀ x ∈ c'.borrows, x ∈ c.borrows
  within : c'.Within
  made : ∀ x ∈ c'.made, (s.after i (t, c')).counts.owned x = 1

/-- A section after which the call neither relies on the application nor has new devices. -/
theorem Proceeds.of_settled (step : s.counts.Step (s.after i (t, c')).counts)
    (others : ∀ x, s.counts.owned x = 1 → c.owns.count x = 0 → s.held.count x = 0 →
      (s.after i (t, c')).counts.owned x = 1)
    (held : ∀ x ∈ s.held, x ∈ t.held) (hborrows : c'.borrows = []) (hmade : c'.made = [])
    (within : c'.Within) : Proceeds s i c t c' := by
  refine ⟨step, others, held, ?_, within, ?_⟩
  · rw [hborrows]
    exact fun x hx => absurd hx List.not_mem_nil
  · rw [hmade]
    exact fun x hx => absurd hx List.not_mem_nil

/-- A call that uses a device has a reference to it, or relies on one of the application. -/
theorem Kept.known (h : s.Kept) (hi : s.calls[i]? = some c) {d : ObjId}
    (hd : d ∈ c.owns ∨ d ∈ c.borrows) : 0 < c.owns.count d + s.held.count d := by
  rcases hd with hd | hd
  · have := List.count_pos_iff.mpr hd
    omega
  · have hborrowed : d ∈ s.borrowed :=
      List.mem_flatMap.mpr ⟨c, List.mem_of_getElem? hi, hd⟩
    have := List.count_pos_iff.mpr (h.borrowed d hborrowed)
    omega

theorem Kept.owned_known (h : s.Kept) (hi : s.calls[i]? = some c) {d : ObjId}
    (hd : d ∈ c.owns ∨ d ∈ c.borrows) : 0 < s.counts.owned d := by
  have hknown := h.known hi hd
  have htally := count_le_tally Course.owns hi d
  show 0 < s.held.count d + tally Course.owns s.calls d
  omega

/-- One more reference to a device that the call may use. -/
theorem Kept.takes (h : s.Kept) (hi : s.calls[i]? = some c) {d : ObjId}
    (hd : d ∈ c.owns ∨ d ∈ c.borrows) {n : Int} (hn : s.refcnt d = some n)
    (hrefcnt : t.refcnt = Function.update s.refcnt d (some (n + 1)))
    (howned : ∀ x, (s.after i (t, c')).counts.owned x = s.counts.owned x + [d].count x)
    (hdies : c.dies = []) (hdies' : c'.dies = []) (hheld : ∀ x ∈ s.held, x ∈ t.held)
    (hborrows : c'.borrows = []) (hmade : c'.made = []) (hwithin : c'.Within) :
    Proceeds s i c t c' := by
  have hpos := h.owned_known hi hd
  obtain ⟨hcounter, halive⟩ := h.sound.counter_of_owned (Nat.ne_of_gt hpos)
  have hval : n = s.counts.owned d := Option.some.inj (hn.symm.trans hcounter)
  refine .of_settled (.take d halive ?_ (fun x => by rw [howned, count_one]) fun x => ?_) ?_ hheld
    hborrows hmade hwithin
  · exact hrefcnt.trans (by rw [hval]; rfl)
  · have := dying_after hi t c' x
    rw [hdies, hdies', List.count_nil] at this
    exact this
  · intro x hx hown hnone
    rw [howned, count_one, if_neg, hx]
    rintro rfl
    have := h.known hi hd
    omega

/-- A section that only passes on what the call has. -/
theorem Passed.proceeds (hi : s.calls[i]? = some c) {list : List ObjId}
    (h : Passed s list none t c') (howns : c.owns = list) (hdies : c.dies = []) :
    Proceeds s i c t c' := by
  have howned : ∀ x, (s.after i (t, c')).counts.owned x = s.counts.owned x := by
    intro x
    have := owned_passed hi h rfl x
    rw [howns, Option.toList_none, List.count_nil] at this
    omega
  refine .of_settled (.keep h.refcnt howned fun x => ?_) (fun x hx _ _ => (howned x).trans hx)
    h.held h.borrows h.made h.within
  have := dying_passed hi h x
  rwa [hdies, List.count_nil, Nat.add_zero] at this

theorem Kept.uses (h : s.Kept) (hi : s.calls[i]? = some c) {d : ObjId} {list : Option (List ObjId)}
    (hc : c = .opening d list ∨ c = .referring d list) : d ∈ c.owns ∨ d ∈ c.borrows := by
  have hwithin := h.within c (List.mem_of_getElem? hi)
  rcases hc with rfl | rfl
  · cases list with
    | none => exact .inr (List.mem_singleton.mpr rfl)
    | some list => exact .inl hwithin
  · cases list with
    | none => exact .inr (List.mem_singleton.mpr rfl)
    | some list => exact .inl hwithin

/-- A device is made for the list. -/
theorem Kept.proceeds_make (h : s.Kept) {made : List ObjId} {left : Nat} {ids : Bool}
    (hi : s.calls[i]? = some (.listing made (left + 1) ids)) {d : ObjId}
    (hfresh : s.refcnt d = none) :
    Proceeds s i (.listing made (left + 1) ids) (s.setRefcnt d (some 1))
      (.listing (made ++ [d]) left ids) := by
  have hmade := h.alone _ (List.mem_of_getElem? hi)
  obtain ⟨hnone, halive⟩ := h.sound.of_counter_none hfresh
  have howned : ∀ x, (s.after i (s.setRefcnt d (some 1),
      .listing (made ++ [d]) left ids)).counts.owned x = s.counts.owned x + [d].count x := by
    intro x
    have := owned_after hi (s.setRefcnt d (some 1)) (.listing (made ++ [d]) left ids) x
    simp only [Course.owns, List.count_append] at this
    show _ = s.held.count x + tally Course.owns s.calls x + _
    have hheld : (s.setRefcnt d (some 1)).held = s.held := rfl
    rw [hheld] at this
    omega
  have hother : ∀ x, s.counts.owned x = 1 → (s.after i (s.setRefcnt d (some 1),
      .listing (made ++ [d]) left ids)).counts.owned x = 1 := by
    intro x hx
    rw [howned, count_one, if_neg, hx]
    rintro rfl
    omega
  refine ⟨.take d halive ?_ (fun x => by rw [howned, count_one]) fun x => ?_,
    fun x hx _ _ => hother x hx, fun x hx => hx, fun x hx => absurd hx List.not_mem_nil,
    trivial, fun x hx => ?_⟩
  · rw [hnone]
    rfl
  · exact dying_after hi (s.setRefcnt d (some 1)) _ x
  · rcases List.mem_append.mp hx with hx | hx
    · exact hother x (hmade x hx)
    · rw [List.mem_singleton.mp hx, howned, hnone, count_one, if_pos rfl]

/-- There is no memory for the next device, and those that were made are freed. -/
theorem Kept.proceeds_undo (h : s.Kept) {made : List ObjId} {left : Nat} {ids : Bool}
    (hi : s.calls[i]? = some (.listing made left ids)) :
    Proceeds s i (.listing made left ids) (s.freeEach made) .returned := by
  have hmade := h.alone _ (List.mem_of_getElem? hi)
  have howned : ∀ x, (s.after i (s.freeEach made, .returned)).counts.owned x +
      made.count x = s.counts.owned x := owned_after hi (s.freeEach made) .returned
  refine .of_settled (.drop made hmade (fun x => rfl) (fun x => ?_) fun x => ?_)
    (fun x hx hown _ => ?_) (fun x hx => hx) rfl rfl trivial
  · have hx := howned x
    split
    · rename_i hmem
      have := hmade x hmem
      have := List.count_pos_iff.mpr hmem
      omega
    · rename_i hmem
      rw [List.count_eq_zero.mpr hmem] at hx
      exact hx
  · exact dying_after hi (s.freeEach made) .returned x
  · have hafter := howned x
    rw [show made.count x = 0 from hown] at hafter
    exact hafter.trans hx

/-- A device of the list has the ids. -/
theorem proceeds_pick {made : List ObjId} (hi : s.calls[i]? = some (.listing made 0 true))
    {d : ObjId} (hd : d ∈ made) :
    Proceeds s i (.listing made 0 true) s (.opening d (some made)) := by
  have hcount : ∀ x, (s.after i (s, .opening d (some made))).counts.owned x =
      s.counts.owned x := by
    intro x
    have := owned_after hi s (.opening d (some made)) x
    show _ = s.held.count x + tally Course.owns s.calls x
    simp only [Course.owns, Option.getD_some] at this
    omega
  exact .of_settled (.keep rfl hcount fun x => dying_after hi s _ x)
    (fun x hx _ _ => (hcount x).trans hx) (fun x hx => hx) rfl rfl hd

theorem Kept.proceeds_listing (h : s.Kept) {made : List ObjId} {left : Nat} {ids : Bool}
    (hi : s.calls[i]? = some (.listing made left ids)) {env : Meets}
    (hp : s.proceed env (.listing made left ids) = some (t, c')) :
    Proceeds s i (.listing made left ids) t c' := by
  rw [proceed.eq_def] at hp
  cases left with
  | zero =>
    cases ids with
    | false =>
      cases hp
      refine Passed.proceeds hi ⟨rfl, rfl, fun x => ?_, fun x hx => ?_, rfl, rfl, rfl, trivial⟩ rfl
        rfl
      · simp [count_held, Course.owns]
        omega
      · simp only [Devices.held, List.mem_append, List.flatten_append] at hx ⊢
        tauto
    | true =>
      dsimp only at hp
      rw [if_pos rfl] at hp
      obtain ⟨-, hp⟩ := Option.ite_none_right_eq_some.mp hp
      cases hpick : env.pick.bind fun k => made[k]? with
      | none =>
        rw [hpick] at hp
        exact (Passed.of_eq (Option.some.inj hp)).proceeds hi rfl rfl
      | some d =>
        rw [hpick] at hp
        cases hp
        obtain ⟨k, -, hk⟩ := Option.bind_eq_some_iff.mp hpick
        exact proceeds_pick hi (List.mem_of_getElem? hk)
  | succ left =>
    dsimp only at hp
    cases hcalloc : env.calloc with
    | some d =>
      rw [hcalloc] at hp
      obtain ⟨hfresh, hnext⟩ := Option.ite_none_right_eq_some.mp hp
      cases hnext
      exact h.proceeds_make hi hfresh
    | none =>
      rw [hcalloc] at hp
      obtain ⟨-, hnext⟩ := Option.ite_none_right_eq_some.mp hp
      cases hnext
      exact h.proceeds_undo hi

/-- A reference is given back, and with the last one the device is to be freed. -/
theorem Kept.gives (h : s.Kept) {d : ObjId} {rest : List ObjId} {handle : Option ObjId}
    (hi : s.calls[i]? = some (.unref d rest handle)) {n : Int} (hn : s.refcnt d = some n)
    (hrefcnt : t.refcnt = Function.update s.refcnt d (some (n - 1)))
    (howned : ∀ x, (s.after i (t, c')).counts.owned x + [d].count x = s.counts.owned x)
    (hdies : c'.dies = if n - 1 ≤ 0 then [d] else []) (hheld : ∀ x ∈ s.held, x ∈ t.held)
    (hborrows : c'.borrows = []) (hmade : c'.made = []) (hwithin : c'.Within) :
    Proceeds s i (.unref d rest handle) t c' := by
  have hpos : 0 < s.counts.owned d := h.owned_known hi (.inl List.mem_cons_self)
  have hcounter := (h.sound.counter_of_owned (Nat.ne_of_gt hpos)).1
  have hval : n = s.counts.owned d := Option.some.inj (hn.symm.trans hcounter)
  refine .of_settled (.give d hpos ?_ (fun x => by rw [← count_one, howned]) fun x => ?_) ?_ hheld
    hborrows hmade hwithin
  · exact hrefcnt.trans (by rw [hval]; rfl)
  · have hdying : (s.after i (t, c')).counts.dying x = s.counts.dying x + c'.dies.count x :=
      dying_after hi t c' x
    rw [hdying, hdies]
    by_cases hlast : n - 1 ≤ 0
    · have hone : s.counts.owned d = 1 := by omega
      rw [if_pos hlast, count_one, hone]
      simp
    · rw [if_neg hlast, if_neg fun hboth => hlast (by omega), List.count_nil]
  · intro x hx hown _
    have hafter := howned x
    have hnone : x ∉ d :: (rest ++ handle.toList) := List.count_eq_zero.mp hown
    have hne : x ≠ d := fun heq => hnone (heq ▸ List.mem_cons_self)
    rw [count_one, if_neg hne] at hafter
    exact hafter.trans hx

theorem Kept.proceeds_unref (h : s.Kept) {d : ObjId} {rest : List ObjId} {handle : Option ObjId}
    (hi : s.calls[i]? = some (.unref d rest handle)) {env : Meets}
    (hp : s.proceed env (.unref d rest handle) = some (t, c')) :
    Proceeds s i (.unref d rest handle) t c' := by
  have howns : ∀ x, (Course.unref d rest handle).owns.count x =
      rest.count x + handle.toList.count x + [d].count x := by
    intro x
    rw [Course.owns, ← List.singleton_append, List.count_append, List.count_append]
    omega
  obtain ⟨n, hn, hnext⟩ := Option.map_eq_some_iff.mp hp
  split at hnext
  · rename_i hlast
    cases hnext
    refine h.gives hi hn rfl (fun x => ?_) (if_pos hlast).symm (fun x hx => hx) rfl rfl trivial
    have := owned_after hi (s.setRefcnt d (some (n - 1))) (.freeing d rest handle) x
    rw [howns, Course.owns, List.count_append,
      show (s.setRefcnt d (some (n - 1))).held = s.held from rfl] at this
    show _ = s.held.count x + tally Course.owns s.calls x
    omega
  · rename_i hmore
    have hpass := Passed.of_eq hnext
    refine h.gives hi hn hpass.refcnt (fun x => ?_) (hpass.dies.trans (if_neg hmore).symm)
      hpass.held hpass.borrows hpass.made hpass.within
    have := owned_passed hi hpass rfl x
    rw [howns] at this
    omega

theorem Kept.proceeds_freeing (h : s.Kept) {d : ObjId} {rest : List ObjId} {handle : Option ObjId}
    (hi : s.calls[i]? = some (.freeing d rest handle)) {env : Meets}
    (hp : s.proceed env (.freeing d rest handle) = some (t, c')) :
    Proceeds s i (.freeing d rest handle) t c' := by
  have hdies : [d].count d ≤ s.counts.dying d := count_le_tally Course.dies hi d
  rw [count_one, if_pos rfl] at hdies
  obtain ⟨-, -, hone⟩ := h.sound.counter_of_dying (x := d) (by omega)
  obtain ⟨n, hn, hnext⟩ := Option.map_eq_some_iff.mp hp
  have hpass := Passed.of_eq hnext
  have howned : ∀ x, (s.after i (t, c')).counts.owned x = s.counts.owned x := by
    intro x
    have := owned_passed hi hpass rfl x
    rw [Course.owns, List.count_append] at this
    omega
  refine .of_settled (.free d hone hpass.refcnt howned fun x => ?_)
    (fun x hx _ _ => (howned x).trans hx) hpass.held hpass.borrows hpass.made hpass.within
  have := dying_passed hi hpass x
  rwa [Course.dies, count_one] at this

theorem Kept.proceeds (h : s.Kept) (hi : s.calls[i]? = some c) {env : Meets}
    (hp : s.proceed env c = some (t, c')) : Proceeds s i c t c' := by
  cases c with
  | listing made left ids => exact h.proceeds_listing hi hp
  | unref d rest handle => exact h.proceeds_unref hi hp
  | freeing d rest handle => exact h.proceeds_freeing hi hp
  | returned => cases hp
  | opening d list =>
    have huses := h.uses hi (.inl rfl)
    rw [proceed] at hp
    split at hp
    · cases hp
    · split at hp
      · cases hp
        have hcount : ∀ x, (s.after i (s, .referring d list)).counts.owned x =
            s.counts.owned x := by
          intro x
          have := owned_after hi s (.referring d list) x
          simp only [Course.owns] at this
          show _ = s.held.count x + tally Course.owns s.calls x
          omega
        have hborrows : (Course.referring d list).borrows = (Course.opening d list).borrows := by
          cases list <;> rfl
        refine ⟨.keep rfl hcount fun x => dying_after hi s _ x, fun x hx _ _ => (hcount x).trans hx,
          fun x hx => hx, fun x hx => hborrows ▸ hx, ?_, fun x hx => absurd hx List.not_mem_nil⟩
        have hwithin := h.within _ (List.mem_of_getElem? hi)
        cases list with
        | none => trivial
        | some list => exact hwithin
      · exact (Passed.of_eq (Option.some.inj hp)).proceeds hi rfl rfl
  | referring d list =>
    obtain ⟨n, hn, hnext⟩ := Option.map_eq_some_iff.mp hp
    have hpass := Passed.of_eq hnext
    refine h.takes hi (h.uses hi (.inr rfl)) hn hpass.refcnt (fun x => ?_) rfl hpass.dies hpass.held
      hpass.borrows hpass.made hpass.within
    have := owned_passed hi hpass rfl x
    rw [Course.owns, Option.toList_some] at this
    omega
  | ref d =>
    obtain ⟨n, hn, hnext⟩ := Option.map_eq_some_iff.mp hp
    cases hnext
    refine h.takes hi (.inr (List.mem_singleton.mpr rfl)) hn rfl (fun x => ?_) rfl rfl
      (fun x hx => ?_) rfl rfl trivial
    · have := owned_after hi { s.setRefcnt d (some (n + 1)) with refs := s.refs ++ [d] } .returned x
      simp only [Course.owns, List.count_nil, count_held, List.count_append] at this
      show _ = s.held.count x + tally Course.owns s.calls x + _
      rw [count_held]
      simp only [setRefcnt] at this ⊢
      omega
    · simp only [Devices.held, setRefcnt, List.mem_append] at hx ⊢
      tauto

theorem Proceeds.kept (hp : Proceeds s i c t c') (h : s.Kept) (hi : s.calls[i]? = some c) :
    (s.after i (t, c')).Kept where
  sound := h.sound.step hp.step
  borrowed x hx := by
    obtain ⟨b, hb, hxb⟩ := List.mem_flatMap.mp hx
    refine hp.held x (h.borrowed x ?_)
    rcases List.mem_or_eq_of_mem_set hb with hb | rfl
    · exact List.mem_flatMap.mpr ⟨b, hb, hxb⟩
    · exact List.mem_flatMap.mpr ⟨c, List.mem_of_getElem? hi, hp.borrows x hxb⟩
  within b hb := by
    rcases List.mem_or_eq_of_mem_set hb with hb | rfl
    · exact h.within b hb
    · exact hp.within
  alone b hb x hx := by
    obtain ⟨j, hj⟩ := List.mem_iff_getElem?.mp hb
    have hj : (s.calls.set i c')[j]? = some b := hj
    rw [List.getElem?_set] at hj
    split at hj
    · split at hj
      · cases hj
        exact hp.made x hx
      · cases hj
    · rename_i hne
      have hone := h.alone b (List.mem_of_getElem? hj) x hx
      have hboth := add_count_le_tally Course.owns hi hj hne x
      have howns : 0 < b.owns.count x := by
        cases b with
        | listing made left ids => exact List.count_pos_iff.mpr hx
        | _ => cases hx
      have htotal : s.counts.owned x = s.held.count x + tally Course.owns s.calls x := rfl
      exact hp.others x hone (by omega) (by omega)

/-! ### The calls of the application -/

/-- A call starts with what the application gives it. -/
theorem Kept.start (h : s.Kept) (hcalls : t.calls = s.calls) (hrefcnt : t.refcnt = s.refcnt)
    (hcount : ∀ x, t.held.count x + c.owns.count x = s.held.count x) (hdies : c.dies = [])
    (hmade : c.made = []) (hwithin : c.Within)
    (hborrowed : ∀ x, x ∈ s.borrowed ∨ x ∈ c.borrows → x ∈ t.held) : (t.start c).Kept := by
  have howned : ∀ x, (t.start c).counts.owned x = s.counts.owned x := by
    intro x
    have := hcount x
    show t.held.count x + tally Course.owns (t.calls ++ [c]) x =
      s.held.count x + tally Course.owns s.calls x
    rw [tally_concat, hcalls]
    omega
  have hdying : ∀ x, (t.start c).counts.dying x = s.counts.dying x := by
    intro x
    show tally Course.dies (t.calls ++ [c]) x = tally Course.dies s.calls x
    rw [tally_concat, hcalls, hdies, List.count_nil, Nat.add_zero]
  have hmem : ∀ b ∈ (t.start c).calls, b ∈ s.calls ∨ b = c := by
    intro b hb
    have hb : b ∈ t.calls ++ [c] := hb
    rw [hcalls] at hb
    simpa using hb
  refine ⟨h.sound.step (.keep hrefcnt howned hdying), fun x hx => ?_, fun b hb => ?_,
    fun b hb x hx => ?_⟩
  · obtain ⟨b, hb, hxb⟩ := List.mem_flatMap.mp hx
    refine hborrowed x ?_
    rcases hmem b hb with hb | rfl
    · exact .inl (List.mem_flatMap.mpr ⟨b, hb, hxb⟩)
    · exact .inr hxb
  · rcases hmem b hb with hb | rfl
    · exact h.within b hb
    · exact hwithin
  · rcases hmem b hb with hb | rfl
    · exact (howned x).trans (h.alone b hb x hx)
    · rw [hmade] at hx
      exact absurd hx List.not_mem_nil

theorem count_erase_add {l : List ObjId} {d : ObjId} (hd : d ∈ l) (x : ObjId) :
    (l.erase d).count x + [d].count x = l.count x := by
  have hperm := (List.perm_cons_erase hd).count_eq x
  rw [List.count_cons] at hperm
  rw [List.count_singleton]
  omega

theorem count_flatten_erase {lists : List (List ObjId)} {list : List ObjId} (hl : list ∈ lists)
    (x : ObjId) : (lists.erase list).flatten.count x + list.count x = lists.flatten.count x := by
  have hperm := (List.perm_cons_erase hl).flatten.count_eq x
  rw [List.flatten_cons, List.count_append] at hperm
  omega

theorem Kept.freeDeviceList (h : s.Kept) {list : List ObjId} {unrefDevices : Bool}
    (hproper : s.Proper (.freeDeviceList list unrefDevices))
    (hs : s.step (.freeDeviceList list unrefDevices) = some t) : t.Kept := by
  obtain ⟨hlist, hspares⟩ := hproper
  have hcount := count_flatten_erase hlist
  cases unrefDevices with
  | true =>
    have hpass := unrefAll_passed { s with lists := s.lists.erase list } list none
    cases hs
    refine h.start hpass.calls hpass.refcnt (fun x => ?_) hpass.dies hpass.made hpass.within
      fun x hx => ?_
    · have := hpass.count x
      have := hcount x
      rw [count_held { s with lists := s.lists.erase list }] at *
      rw [count_held s]
      simp only [Option.toList_none, List.count_nil] at *
      omega
    · rw [hpass.borrows] at hx
      exact hpass.held x (hspares rfl x (hx.resolve_right List.not_mem_nil))
  | false =>
    cases hs
    have hheld : ∀ x, ({ s with lists := s.lists.erase list, refs := s.refs ++ list } :
        Devices).held.count x = s.held.count x := by
      intro x
      have := hcount x
      simp only [count_held, List.count_append]
      omega
    have howned : ∀ x, ({ s with lists := s.lists.erase list, refs := s.refs ++ list } :
        Devices).counts.owned x = s.counts.owned x := fun x => congrArg (· + _) (hheld x)
    refine ⟨h.sound.step (.keep rfl howned fun x => rfl), fun x hx => ?_, h.within,
      fun b hb x hx => (howned x).trans (h.alone b hb x hx)⟩
    rw [← List.count_pos_iff, hheld, List.count_pos_iff]
    exact h.borrowed x hx

/-- An application that does what it may. -/
theorem Kept.step (h : s.Kept) {act : DevicesAct} (hproper : s.Proper act)
    (hs : s.step act = some t) : t.Kept := by
  cases act with
  | getDeviceList count | openDeviceWithVidPid count =>
    cases hs
    exact h.start rfl rfl (fun x => rfl) rfl rfl trivial fun x hx =>
      h.borrowed x (hx.resolve_right List.not_mem_nil)
  | openDevice d | refDevice d =>
    cases hs
    refine h.start rfl rfl (fun x => rfl) rfl rfl trivial fun x hx => ?_
    rcases hx with hx | hx
    · exact h.borrowed x hx
    · rw [List.mem_singleton.mp hx]
      exact hproper
  | unrefDevice d =>
    cases hs
    refine h.start rfl rfl (fun x => ?_) rfl rfl trivial fun x hx =>
      hproper.2 x (hx.resolve_right List.not_mem_nil)
    have := count_erase_add hproper.1 x
    rw [count_held, count_held]
    show (s.refs.erase d).count x + s.lists.flatten.count x + s.handles.count x + [d].count x = _
    omega
  | close d =>
    cases hs
    refine h.start rfl rfl (fun x => ?_) rfl rfl trivial fun x hx =>
      hproper.2 x (hx.resolve_right List.not_mem_nil)
    have := count_erase_add hproper.1 x
    rw [count_held, count_held]
    show s.refs.count x + s.lists.flatten.count x + (s.handles.erase d).count x + [d].count x = _
    omega
  | freeDeviceList list unrefDevices => exact h.freeDeviceList hproper hs
  | run i env =>
    obtain ⟨c, hi, hnext⟩ := Option.bind_eq_some_iff.mp hs
    obtain ⟨⟨u, c'⟩, hp, rfl⟩ := Option.map_eq_some_iff.mp hnext
    exact (h.proceeds hi hp).kept h hi

theorem kept_new : new.Kept where
  sound := ⟨fun _ => rfl, fun _ => .inl rfl⟩
  borrowed _ hx := absurd hx List.not_mem_nil
  within _ hc := absurd hc List.not_mem_nil
  alone _ hc := absurd hc List.not_mem_nil

theorem Kept.refcnt_held (h : s.Kept) {d : ObjId} (hd : s.counts.owned d ≠ 0) :
    s.refcnt d ≠ none := by
  have := (h.sound.counter_of_owned hd).1
  exact fun hnone => Option.some_ne_none _ (this.symm.trans hnone)

theorem Kept.nodup_made (h : s.Kept) {made : List ObjId} {left : Nat} {ids : Bool}
    (hi : s.calls[i]? = some (.listing made left ids)) : made.Nodup := by
  refine List.nodup_iff_count.mpr fun x => ?_
  by_cases hx : x ∈ made
  · have hone := h.alone _ (List.mem_of_getElem? hi) x hx
    have htally : made.count x ≤ tally Course.owns s.calls x := count_le_tally Course.owns hi x
    have htotal : s.counts.owned x = s.held.count x + tally Course.owns s.calls x := rfl
    omega
  · rw [List.count_eq_zero.mpr hx]
    exact Nat.zero_le 1

/-- No section of a call uses a device that is not allocated. -/
theorem Kept.can_proceed (h : s.Kept) (hi : s.calls[i]? = some c) (hc : c ≠ .returned)
    {env : Meets} (hfresh : ∀ d ∈ env.calloc, s.refcnt d = none) :
    ∃ next, s.proceed env c = some next := by
  have hmap : ∀ {d : ObjId} (f : Int → Devices × Course), s.refcnt d ≠ none →
      ∃ next, (s.refcnt d).map f = some next := by
    intro d f hd
    obtain ⟨n, hn⟩ := Option.ne_none_iff_exists'.mp hd
    exact ⟨f n, by rw [hn, Option.map_some]⟩
  have huse : ∀ {d : ObjId}, d ∈ c.owns ∨ d ∈ c.borrows → s.refcnt d ≠ none := fun hd =>
    h.refcnt_held (Nat.ne_of_gt (h.owned_known hi hd))
  cases c with
  | returned => exact absurd rfl hc
  | listing made left ids =>
    cases left with
    | zero =>
      rw [proceed]
      split
      · have hmade : ∀ d ∈ made, s.refcnt d ≠ none := fun d hd => huse (.inl hd)
        rw [if_pos hmade]
        split <;> exact ⟨_, rfl⟩
      · exact ⟨_, rfl⟩
    | succ left =>
      rw [proceed]
      split
      · rename_i d hd
        exact ⟨_, if_pos (hfresh d hd)⟩
      · exact ⟨_, if_pos ⟨h.nodup_made hi, fun d hd => huse (.inl hd)⟩⟩
  | opening d list =>
    rw [proceed, if_neg (huse (h.uses hi (.inl rfl)))]
    split <;> exact ⟨_, rfl⟩
  | referring d list => exact hmap _ (huse (h.uses hi (.inr rfl)))
  | ref d => exact hmap _ (huse (.inr (List.mem_singleton.mpr rfl)))
  | unref d rest handle => exact hmap _ (huse (.inl List.mem_cons_self))
  | freeing d rest handle =>
    have hdies : [d].count d ≤ s.counts.dying d := count_le_tally Course.dies hi d
    rw [count_one, if_pos rfl] at hdies
    have := (h.sound.counter_of_dying (x := d) (by omega)).1
    exact hmap _ fun hnone => Option.some_ne_none _ (this.symm.trans hnone)

theorem kept_of_exec {acts : List DevicesAct} (hproper : Guarded step Proper new acts)
    (hs : exec step new acts = some s) : s.Kept :=
  guarded_invariant (fun _ _ _ hk hp ht => hk.step hp ht) kept_new hproper hs

/-- Whatever calls run at once, an application that gives back only what it has finds that no call
uses a device that has been freed, or frees it twice; what it has a reference to is allocated; and
when no call runs, these are the only devices that are allocated, each with as many references as
the application has. -/
theorem freed_once {acts : List DevicesAct} (hproper : Guarded step Proper new acts)
    (hs : exec step new acts = some s) :
    (∀ i c env, s.calls[i]? = some c → c ≠ .returned → (∀ d ∈ env.calloc, s.refcnt d = none) →
      ∃ s', s.step (.run i env) = some s') ∧
    (∀ d ∈ s.held, s.refcnt d ≠ none) ∧
    ((∀ c ∈ s.calls, c = .returned) → ∀ d,
      s.refcnt d = if d ∈ s.held then some (s.held.count d : Int) else none) := by
  have h := kept_of_exec hproper hs
  refine ⟨fun i c env hi hc hfresh => ?_, fun d hd => ?_, fun hquiet d => ?_⟩
  · obtain ⟨next, hnext⟩ := h.can_proceed hi hc hfresh
    exact ⟨s.after i next, by rw [step, hi, Option.bind_some, hnext, Option.map_some]⟩
  · refine h.refcnt_held (Nat.ne_of_gt ?_)
    have := List.count_pos_iff.mpr hd
    show 0 < s.held.count d + _
    omega
  · have hnothing : ∀ holds : Course → List ObjId, holds .returned = [] →
        tally holds s.calls d = 0 := by
      intro holds hreturned
      refine List.count_eq_zero.mpr fun hmem => ?_
      obtain ⟨c, hc, hd⟩ := List.mem_flatMap.mp hmem
      rw [hquiet c hc, hreturned] at hd
      exact absurd hd List.not_mem_nil
    have hcounter := h.sound.counter d
    have howned : s.counts.owned d = s.held.count d :=
      congrArg (s.held.count d + ·) (hnothing Course.owns rfl)
    have hdying : s.counts.dying d = 0 := hnothing Course.dies rfl
    rw [howned, hdying] at hcounter
    refine hcounter.trans ?_
    by_cases hd : d ∈ s.held
    · have := List.count_pos_iff.mpr hd
      rw [if_pos hd, if_neg (by omega)]
    · rw [if_neg hd, if_pos ⟨List.count_eq_zero.mpr hd, rfl⟩]

/-- Two devices are listed, and the first is opened before the list is given back. -/
def openRun : List DevicesAct :=
  let went : Meets := ⟨none, none, true⟩
  [.getDeviceList 2, .run 0 ⟨some 0, none, true⟩, .run 0 ⟨some 1, none, true⟩, .run 0 went,
    .openDevice 0, .run 1 went, .run 1 went,
    .freeDeviceList [0, 1] true, .run 2 went, .run 2 went, .run 2 went]

theorem freed_once_openRun : ∃ s, exec step new openRun = some s ∧ s.held = [0] ∧
    (∀ d ∈ s.held, s.refcnt d ≠ none) ∧
    ((∀ c ∈ s.calls, c = .returned) → ∀ d,
      s.refcnt d = if d ∈ s.held then some (s.held.count d : Int) else none) :=
  have hproper : Guarded step Proper new openRun := by decide +kernel
  ⟨_, rfl, rfl, (freed_once hproper rfl).2⟩

/-! ### The end of a call -/

theorem unrefAll_sections (s : Devices) (list : List ObjId) (handle : Option ObjId) :
    (s.unrefAll list handle).2.sections ≤ 2 * list.length := by
  cases list with
  | nil => exact Nat.zero_le _
  | cons d rest =>
    rw [List.length_cons]
    show 2 + 2 * rest.length ≤ _
    omega

theorem unrefAll_sections_le {u : Devices} {list : List ObjId} {handle : Option ObjId}
    (h : u.unrefAll list handle = (t, c')) : c'.sections ≤ 2 * list.length := by
  have hle := unrefAll_sections u list handle
  rwa [h] at hle

theorem listing_sections {made : List ObjId} {left : Nat} {ids : Bool} {env : Meets}
    (hp : s.proceed env (.listing made left ids) = some (t, c')) :
    c'.sections < (Course.listing made left ids).sections := by
  cases left with
  | zero =>
    rw [proceed] at hp
    cases ids with
    | false =>
      cases hp
      exact Nat.zero_lt_one
    | true =>
      rw [if_pos rfl] at hp
      obtain ⟨-, hnext⟩ := Option.ite_none_right_eq_some.mp hp
      show c'.sections < 0 + 1 + (2 + 2 * (made.length + 0))
      split at hnext
      · cases hnext
        show 2 + 2 * made.length < _
        omega
      · have := unrefAll_sections_le (Option.some.inj hnext)
        omega
  | succ left =>
    rw [proceed] at hp
    split at hp
    · obtain ⟨-, hnext⟩ := Option.ite_none_right_eq_some.mp hp
      cases hnext
      simp only [Course.sections, List.length_append, List.length_singleton]
      split <;> omega
    · obtain ⟨-, hnext⟩ := Option.ite_none_right_eq_some.mp hp
      cases hnext
      show 0 < left + 1 + 1 + _
      omega

theorem proceed_sections {env : Meets} (hp : s.proceed env c = some (t, c')) :
    c'.sections < c.sections := by
  cases c with
  | returned => cases hp
  | listing made left ids => exact listing_sections hp
  | opening d list =>
    rw [proceed] at hp
    show c'.sections < 2 + 2 * (list.getD []).length
    split at hp
    · cases hp
    · split at hp
      · cases hp
        show 1 + 2 * (list.getD []).length < _
        omega
      · have := unrefAll_sections_le (Option.some.inj hp)
        omega
  | referring d list =>
    obtain ⟨n, -, hnext⟩ := Option.map_eq_some_iff.mp hp
    have := unrefAll_sections_le hnext
    show c'.sections < 1 + 2 * (list.getD []).length
    omega
  | ref d =>
    obtain ⟨n, -, hnext⟩ := Option.map_eq_some_iff.mp hp
    cases hnext
    exact Nat.zero_lt_one
  | unref d rest handle =>
    obtain ⟨n, -, hnext⟩ := Option.map_eq_some_iff.mp hp
    show c'.sections < 2 + 2 * rest.length
    split at hnext
    · cases hnext
      show 1 + 2 * rest.length < _
      omega
    · have := unrefAll_sections_le hnext
      omega
  | freeing d rest handle =>
    obtain ⟨n, -, hnext⟩ := Option.map_eq_some_iff.mp hp
    have := unrefAll_sections_le hnext
    show c'.sections < 1 + 2 * rest.length
    omega

/-- Only its own sections take a call further. -/
theorem step_sections {act : DevicesAct} (hs : s.step act = some t) (hi : s.calls[i]? = some c) :
    ∃ c', t.calls[i]? = some c' ∧ c'.sections + (if act.ofCall i then 1 else 0) ≤ c.sections := by
  have hlt := (List.getElem?_eq_some_iff.mp hi).1
  have hlast : ∀ (u : Devices) (b : Course), u.calls = s.calls →
      (u.start b).calls[i]? = some c := by
    intro u b hu
    show (u.calls ++ [b])[i]? = some c
    rw [hu, List.getElem?_append_left hlt, hi]
  cases act with
  | run j env =>
    obtain ⟨b, hj, hnext⟩ := Option.bind_eq_some_iff.mp hs
    obtain ⟨⟨u, b'⟩, hp, rfl⟩ := Option.map_eq_some_iff.mp hnext
    have hless := proceed_sections hp
    by_cases hji : j = i
    · subst hji
      cases hi.symm.trans hj
      refine ⟨b', List.getElem?_set_self hlt, ?_⟩
      have hown : DevicesAct.ofCall j (.run j env) = true := decide_eq_true rfl
      rw [if_pos hown]
      exact hless
    · refine ⟨c, (List.getElem?_set_ne hji).trans hi, ?_⟩
      have hother : ¬DevicesAct.ofCall i (.run j env) = true := fun hown =>
        hji (of_decide_eq_true hown)
      rw [if_neg hother]
      exact Nat.le_refl _
  | getDeviceList count | openDeviceWithVidPid count =>
    cases hs
    exact ⟨c, hlast s _ rfl, Nat.le_refl _⟩
  | openDevice d | refDevice d | unrefDevice d | close d =>
    cases hs
    exact ⟨c, hlast _ _ rfl, Nat.le_refl _⟩
  | freeDeviceList list unrefDevices =>
    cases unrefDevices with
    | true =>
      cases hs
      exact ⟨c, hlast _ _ (unrefAll_passed _ list none).calls, Nat.le_refl _⟩
    | false =>
      cases hs
      exact ⟨c, hi, Nat.le_refl _⟩

theorem exec_sections {acts : List DevicesAct} (hs : exec step s acts = some t)
    (hi : s.calls[i]? = some c) : ∃ c', t.calls[i]? = some c' ∧
      c'.sections + acts.countP (DevicesAct.ofCall i) ≤ c.sections := by
  induction acts generalizing s c with
  | nil =>
    cases hs
    exact ⟨c, hi, Nat.le_refl _⟩
  | cons act acts ih =>
    obtain ⟨u, hsu, hut⟩ := exec_cons_some hs
    obtain ⟨b, hb, hfirst⟩ := step_sections hsu hi
    obtain ⟨c', hc', hrest⟩ := ih hut hb
    refine ⟨c', hc', ?_⟩
    rw [List.countP_cons]
    omega

/-- A call that is left to itself returns. -/
theorem Kept.returns (h : s.Kept) (hi : s.calls[i]? = some c) (env : Devices → Meets)
    (hfresh : ∀ u, ∀ d ∈ (env u).calloc, u.refcnt d = none) : ∃ more t,
      Guarded Devices.step (fun u act => act = .run i (env u)) s more ∧ more.length ≤ c.sections ∧
        exec Devices.step s more = some t ∧ t.calls[i]? = some .returned := by
  induction hn : c.sections using Nat.strongRecOn generalizing s c with
  | _ n ih =>
    by_cases hc : c = .returned
    · subst hc
      exact ⟨[], s, trivial, Nat.zero_le _, rfl, hi⟩
    · obtain ⟨⟨u, c'⟩, hp⟩ := h.can_proceed hi hc (hfresh s)
      have hless := proceed_sections hp
      have hi' : (s.after i (u, c')).calls[i]? = some c' :=
        List.getElem?_set_self (List.getElem?_eq_some_iff.mp hi).1
      obtain ⟨more, t, hmore, hlen, hexec, hend⟩ :=
        ih c'.sections (hn ▸ hless) ((h.proceeds hi hp).kept h hi) hi' rfl
      have hstep : s.step (.run i (env s)) = some (s.after i (u, c')) := by
        rw [Devices.step, hi, Option.bind_some, hp, Option.map_some]
      refine ⟨.run i (env s) :: more, t, ⟨rfl, fun v hv => ?_⟩, ?_, ?_, hend⟩
      · cases hstep.symm.trans hv
        exact hmore
      · rw [List.length_cons]
        omega
      · rw [exec_cons, hstep, Option.bind_some]
        exact hexec

/-- No call waits for another: whatever comes between, it takes no more than so many sections of its
own, and from every state that an application can reach these alone bring it to its end, whatever
memory, devices and imports it meets. -/
theorem call_returns {acts : List DevicesAct} (hproper : Guarded step Proper new acts)
    (hs : exec step new acts = some s) (hi : s.calls[i]? = some c) :
    (∀ more t, exec step s more = some t →
      more.countP (DevicesAct.ofCall i) ≤ c.sections) ∧
    ∀ env : Devices → Meets, (∀ u, ∀ d ∈ (env u).calloc, u.refcnt d = none) → ∃ more t,
      Guarded step (fun u act => act = .run i (env u)) s more ∧ more.length ≤ c.sections ∧
        exec step s more = some t ∧ t.calls[i]? = some .returned := by
  refine ⟨fun more t hmore => ?_, fun env hfresh => ?_⟩
  · obtain ⟨c', -, hbound⟩ := exec_sections hmore hi
    omega
  · exact (kept_of_exec hproper hs).returns hi env hfresh

/-- There is no memory for the second device of a list. -/
theorem call_returns_openRun : ∃ s, exec step new (openRun.take 2) = some s ∧ ∃ more t,
    Guarded step (fun _ act => act = .run 0 ⟨none, none, true⟩) s more ∧ more.length ≤ 2 ∧
      exec step s more = some t ∧ t.calls[0]? = some .returned :=
  have hproper : Guarded step Proper new (openRun.take 2) := by decide +kernel
  ⟨_, rfl, (call_returns (i := 0) (c := .listing [0] 1 false) hproper rfl rfl).2
    (fun _ => ⟨none, none, true⟩) fun _ _ hd => by cases hd⟩

end Devices

end Usbip.Libusb
