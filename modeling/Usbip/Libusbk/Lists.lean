import Usbip.Lib.Chain

/-! The device lists of the libusbK wrapper: linked lists of elements, to which applications hold
handles, with the cursor of `LstK_MoveNext`. -/

namespace Usbip.Libusbk

open Lib

abbrev ElId := Nat
abbrev ListId := Nat

def klstSyncFlagUnchanged : UInt32 := 0x0001
def klstSyncFlagAdded : UInt32 := 0x0002
def klstSyncFlagRemoved : UInt32 := 0x0004
def klstSyncFlagConnectChange : UInt32 := 0x0008

/-- `KLST_DEVINFO`, as far as the lists look at it; `deviceId` are the characters before the NUL. -/
structure DevInfo where
  deviceId : List UInt8
  connected : Int
  syncFlags : UInt32
  deriving DecidableEq, Repr

/-- `struct klst_el`. -/
structure KlstEl where
  pub : DevInfo
  owner : Option ListId
  next : Option ElId
  deriving DecidableEq, Repr

/-- `struct klst`. -/
structure Klst where
  head : Option ElId
  tail : Option ElId
  cursor : Option ElId
  started : Bool
  count : Int
  deriving DecidableEq, Repr

/-- The elements and the lists in memory; `top` is the first address that is not in use yet. -/
structure DevLists where
  els : ElId → Option KlstEl
  lists : ListId → Option Klst
  top : ElId

namespace DevLists

/-! A function is `none` where it uses a pointer to nothing, or goes on forever along the links. -/

def setEl (s : DevLists) (el : ElId) (f : KlstEl → KlstEl) : Option DevLists :=
  (s.els el).map fun x => { s with els := Function.update s.els el (some (f x)) }

def setList (s : DevLists) (list : ListId) (f : Klst → Klst) : Option DevLists :=
  (s.lists list).map fun l => { s with lists := Function.update s.lists list (some (f l)) }

def links (s : DevLists) (el : ElId) : Option (Cell ElId DevInfo) :=
  (s.els el).map fun x => ⟨x.next, x.pub⟩

/-- Writes the link behind `prev`, which is the head of the list when `prev` is null. -/
def setLink (s : DevLists) (list : ListId) (prev next : Option ElId) : Option DevLists :=
  match prev with
  | none => s.setList list fun l => { l with head := next }
  | some el => s.setEl el fun x => { x with next }

/-- `lk_list_find_id`: `strcmp` compares the characters before the NUL. -/
def lkListFindId (s : DevLists) (list : ListId) (deviceId : List UInt8) :
    Option (Option ElId) := do
  let l ← s.lists list
  let (found, _) ← search s.links (fun _ pub => pub.deviceId = deviceId) (s.top + 1) none l.head
  return found

/-- The memory with a new element at `el`. -/
def alloc (s : DevLists) (el : ElId) (x : KlstEl) : DevLists :=
  { s with els := Function.update s.els el (some x), top := max s.top (el + 1) }

/-- `lk_el_free`, without the cleanup of the application. -/
def lkElFree (s : DevLists) (el : ElId) : DevLists :=
  { s with els := Function.update s.els el none }

def lkListAppend (s : DevLists) (list : ListId) (el : ElId) : Option DevLists := do
  let s ← s.setEl el fun x => { x with owner := some list, next := none }
  let l ← s.lists list
  let s ← s.setLink list l.tail (some el)
  s.setList list fun l => { l with tail := some el, count := l.count + 1 }

def lkListUnlink (s : DevLists) (list : ListId) (el : ElId) : Option (DevLists × Bool) := do
  let l ← s.lists list
  let (found, prev) ← search s.links (fun a _ => a = el) (s.top + 1) none l.head
  if found = none then return (s, false)
  let s ← s.setList list fun l => { l with cursor := if l.cursor = some el then prev else l.cursor }
  let x ← s.els el
  let s ← s.setLink list prev x.next
  let s ← s.setList list fun l => { l with tail := if l.tail = some el then prev else l.tail }
  let s ← s.setEl el fun x => { x with next := none, owner := none }
  let s ← s.setList list fun l => { l with count := l.count - 1 }
  return (s, true)

def lstKMoveReset (s : DevLists) (list : Option ListId) : Option DevLists :=
  match list with
  | none => some s
  | some list => s.setList list fun l => { l with cursor := none, started := false }

/-- The element that `LstK_MoveNext` goes to. -/
def moveTo (s : DevLists) (l : Klst) : Option (Option ElId) :=
  if l.started then
    match l.cursor with
    | some el => (s.els el).map KlstEl.next
    | none => some none
  else some l.head

/-- `LstK_MoveNext`, with `*DeviceInfo`; it returns `TRUE` when that is not null. -/
def lstKMoveNext (s : DevLists) (list : Option ListId) : Option (DevLists × Option ElId) :=
  match list with
  | none => some (s, none)
  | some list => do
    let l ← s.lists list
    let next ← s.moveTo l
    let s ← s.setList list fun l => { l with started := true, cursor := next }
    return (s, next)

def lstKAttachInfo (s : DevLists) (list : Option ListId) (info : Option ElId) :
    Option (DevLists × Bool) :=
  match list, info with
  | some list, some el => do
    let x ← s.els el
    if x.owner ≠ none then return (s, false)
    let s ← s.lkListAppend list el
    return (s, true)
  | _, _ => some (s, false)

def lstKDetachInfo (s : DevLists) (list : Option ListId) (info : Option ElId) :
    Option (DevLists × Bool) :=
  match list, info with
  | some list, some el => do
    let x ← s.els el
    if x.owner ≠ some list then return (s, false)
    s.lkListUnlink list el
  | _, _ => some (s, false)

/-- The list `id` has the elements `items`, in this order. -/
structure Holds (s : DevLists) (id : ListId) (l : Klst) (items : List (ElId × DevInfo)) : Prop where
  fifo : Fifo s.links l.head l.tail items
  count : l.count = items.length
  owned : ∀ el, el ∈ items.map Prod.fst ↔ ∃ x, s.els el = some x ∧ x.owner = some id
  cursor : ∀ el, l.cursor = some el → el ∈ items.map Prod.fst

/-- Every list is well formed; `c` is what each one has. -/
structure Formed (s : DevLists) (c : ListId → List (ElId × DevInfo)) : Prop where
  top : ∀ el, s.top ≤ el → s.els el = none
  holds : ∀ id l, s.lists id = some l → s.Holds id l (c id)

/-! ### Writes -/

variable {s t : DevLists} {c : ListId → List (ElId × DevInfo)} {id : ListId} {l : Klst} {el : ElId}
  {x : KlstEl} {items : List (ElId × DevInfo)}

theorem setEl_eq (h : s.els el = some x) (f : KlstEl → KlstEl) :
    s.setEl el f = some { s with els := Function.update s.els el (some (f x)) } := by
  rw [setEl, h]
  rfl

theorem setList_eq (h : s.lists id = some l) (f : Klst → Klst) :
    s.setList id f = some { s with lists := Function.update s.lists id (some (f l)) } := by
  rw [setList, h]
  rfl

theorem links_eq (h : s.els el = some x) : s.links el = some ⟨x.next, x.pub⟩ := by
  rw [links, h]
  rfl

theorem links_of_eq (h : t.els el = s.els el) : t.links el = s.links el := by
  rw [links, links, h]

theorem Holds.congr (h : s.Holds id l items)
    (same : ∀ el x, x.owner = some id → (t.els el = some x ↔ s.els el = some x)) :
    t.Holds id l items := by
  refine ⟨h.fifo.congr ?_, h.count, ?_, h.cursor⟩
  · intro el hel
    obtain ⟨x, hx, hown⟩ := (h.owned el).mp hel
    rw [links_eq hx, links_eq ((same el x hown).mpr hx)]
  · intro el
    rw [h.owned]
    refine exists_congr fun x => and_congr_left fun hown => ?_
    exact (same el x hown).symm

/-- The same elements are in memory, and those that differ are of the list `id` or of none. -/
def Local (s t : DevLists) (id : ListId) : Prop :=
  ∀ el, t.els el = s.els el ∨ ∃ x y, s.els el = some x ∧ t.els el = some y ∧
    (x.owner = none ∨ x.owner = some id) ∧ (y.owner = none ∨ y.owner = some id)

theorem Local.isSome (h : Local s t id) (el : ElId) : (t.els el).isSome = (s.els el).isSome := by
  rcases h el with h | ⟨x, y, hx, hy, -, -⟩
  · rw [h]
  · rw [hx, hy]
    rfl

/-- An operation on one list leaves the others as they are. -/
theorem Formed.update (hs : s.Formed c) (hlists : t.lists = Function.update s.lists id (some l))
    (htop : t.top = s.top) (hlocal : Local s t id) (hitems : t.Holds id l items) :
    t.Formed (Function.update c id items) := by
  refine ⟨fun el hel => ?_, fun id' l' hl' => ?_⟩
  · have hsome := hlocal.isSome el
    rw [hs.top el (htop ▸ hel)] at hsome
    exact Option.isSome_eq_false_iff.mp hsome |> Option.isNone_iff_eq_none.mp
  · rw [hlists] at hl'
    by_cases hid : id' = id
    · subst hid
      rw [Function.update_self] at hl' ⊢
      cases hl'
      exact hitems
    · rw [Function.update_of_ne hid] at hl' ⊢
      refine (hs.holds id' l' hl').congr fun el x hown => ?_
      rcases hlocal el with h | ⟨y, z, hy, hz, hyown, hzown⟩
      · rw [h]
      · have hother : ∀ w : KlstEl, w.owner = none ∨ w.owner = some id → w ≠ x := by
          rintro w hw rfl
          rw [hown] at hw
          rcases hw with hw | hw
          · cases hw
          · exact hid (Option.some.inj hw)
        rw [hy, hz]
        constructor
        · intro h
          exact absurd (Option.some.inj h) (hother z hzown)
        · intro h
          exact absurd (Option.some.inj h) (hother y hyown)

namespace Holds

variable (h : s.Holds id l items)

include h

theorem owner_of_mem {v : DevInfo} (hmem : (el, v) ∈ items) :
    ∃ x, s.els el = some x ∧ x.owner = some id ∧ x.pub = v := by
  obtain ⟨x, hx, hown⟩ := (h.owned el).mp (List.mem_map_of_mem hmem)
  obtain ⟨n, hn⟩ := Seg.allocated h.fifo.chain hmem
  rw [links_eq hx] at hn
  cases hn
  exact ⟨x, hx, hown, rfl⟩

theorem nodup : (items.map Prod.fst).Nodup := h.fifo.chain.nodup

theorem head_eq : l.head = (items.map Prod.fst).head? := h.fifo.chain.head_eq

theorem tail_eq : l.tail = (items.map Prod.fst).getLast? := by
  rw [h.fifo.last, List.getLast?_map]

theorem tail_mem {b : ElId} (hb : l.tail = some b) : ∃ w, items.getLast? = some (b, w) := by
  have hlast := h.fifo.last
  rw [hb] at hlast
  obtain ⟨⟨b', w⟩, hw, rfl⟩ := Option.map_eq_some_iff.mp hlast.symm
  exact ⟨w, hw⟩

end Holds

theorem setLink_eq (hl : s.lists id = some l) (prev next : Option ElId)
    (hprev : ∀ b, prev = some b → ∃ y, s.els b = some y) : ∃ els : ElId → Option KlstEl,
      (∀ b y, prev = some b → s.els b = some y → els b = some { y with next }) ∧
      (∀ b, prev ≠ some b → els b = s.els b) ∧
      s.setLink id prev next = some { s with
        els
        lists := Function.update s.lists id (some { l with
          head := if prev = none then next else l.head }) } := by
  cases hcase : prev with
  | none =>
    refine ⟨s.els, fun b y hb => (by cases hb), fun _ _ => rfl, ?_⟩
    exact setList_eq hl _
  | some b =>
    obtain ⟨y, hy⟩ := hprev b hcase
    refine ⟨Function.update s.els b (some { y with next }), ?_, ?_, ?_⟩
    · rintro b' y' hb' hy'
      cases hb'
      rw [hy] at hy'
      cases hy'
      exact Function.update_self ..
    · intro a ha
      exact Function.update_of_ne (fun hab : a = b => ha (congrArg some hab.symm)) _ _
    · have hsame : Function.update s.lists id (some l) = s.lists := by
        rw [← hl, Function.update_eq_self]
      rw [if_neg (by simp), hsame]
      exact setEl_eq hy _

/-- Of the elements other than `el`, those that differ are of the list `id`. -/
def Relinks (s t : DevLists) (id : ListId) (el : ElId) : Prop :=
  ∀ a, a ≠ el → t.els a = s.els a ∨
    ∃ y z, s.els a = some y ∧ t.els a = some z ∧ y.owner = some id ∧ z.owner = some id

namespace Relinks

variable (h : Relinks s t id el)

include h

theorem owned {a : ElId} (ha : a ≠ el) : (∃ y, t.els a = some y ∧ y.owner = some id) ↔
    ∃ y, s.els a = some y ∧ y.owner = some id := by
  rcases h a ha with h | ⟨y, z, hy, hz, hyown, hzown⟩
  · rw [h]
  · exact iff_of_true ⟨z, hz, hzown⟩ ⟨y, hy, hyown⟩

theorem toLocal {y : KlstEl} (hx : s.els el = some x) (hy : t.els el = some y)
    (hxown : x.owner = none ∨ x.owner = some id) (hyown : y.owner = none ∨ y.owner = some id) :
    Local s t id := by
  intro a
  by_cases ha : a = el
  · subst ha
    exact Or.inr ⟨x, y, hx, hy, hxown, hyown⟩
  · rcases h a ha with h | ⟨y, z, hy, hz, hyown, hzown⟩
    · exact Or.inl h
    · exact Or.inr ⟨y, z, hy, hz, Or.inr hyown, Or.inr hzown⟩

end Relinks

/-- A loop over a list ends before it has met every address. -/
theorem Formed.length_lt (hs : s.Formed c) (hl : s.lists id = some l) :
    (c id).length < s.top + 1 := by
  apply Nat.lt_succ_of_le
  apply (hs.holds id l hl).fifo.chain.length_le
  intro el hel
  rw [links, hs.top el hel]
  rfl

/-! ### Looking up, writing, allocating and freeing elements -/

theorem lkListFindId_spec (hs : s.Formed c) (hl : s.lists id = some l) (deviceId : List UInt8) :
    s.lkListFindId id deviceId =
      some (((c id).find? fun y => y.2.deviceId = deviceId).map Prod.fst) := by
  have hchain := (hs.holds id l hl).fifo.chain
  have hlength := hs.length_lt hl
  have hfound : ∃ prev, search s.links (fun _ pub => pub.deviceId = deviceId) (s.top + 1) none
      l.head = some (((c id).find? fun y => y.2.deviceId = deviceId).map Prod.fst, prev) := by
    cases hfind : (c id).find? fun y => y.2.deviceId = deviceId with
    | none =>
      refine ⟨_, search_eq_none hchain (fun y hy => ?_) hlength none⟩
      exact Bool.eq_false_iff.mpr (List.find?_eq_none.mp hfind y hy)
    | some y =>
      obtain ⟨a, v⟩ := y
      obtain ⟨hstop, before, after, hsplit, hbefore⟩ := List.find?_eq_some_iff_append.mp hfind
      rw [hsplit] at hchain hlength
      rw [List.length_append, List.length_cons] at hlength
      refine ⟨_, search_eq_some hchain (fun y hy => ?_) hstop (by omega) none⟩
      simpa using hbefore y hy
  obtain ⟨prev, hfound⟩ := hfound
  rw [lkListFindId]
  simp only [hl, Option.bind_eq_bind, Option.bind_some, hfound]
  rfl

theorem setPub_spec (hs : s.Formed c) (hl : s.lists id = some l)
    {before after : List (ElId × DevInfo)} {v : DevInfo} (hc : c id = before ++ (el, v) :: after)
    (w : DevInfo) : ∃ t, s.setEl el (fun x => { x with pub := w }) = some t ∧
      t.Formed (Function.update c id (before ++ (el, w) :: after)) ∧ t.lists = s.lists ∧
      t.top = s.top := by
  have hitems := hs.holds id l hl
  rw [hc] at hitems
  have hmem : (el, v) ∈ before ++ (el, v) :: after := List.mem_append_right _ List.mem_cons_self
  obtain ⟨x, hx, hown, rfl⟩ := hitems.owner_of_mem hmem
  let t : DevLists := { s with els := Function.update s.els el (some { x with pub := w }) }
  have hel : t.els el = some { x with pub := w } := Function.update_self ..
  have hrest : ∀ a, a ≠ el → t.els a = s.els a := fun a ha => Function.update_of_ne ha _ _
  have hlinks : t.links = Function.update s.links el (some ⟨x.next, w⟩) := by
    funext a
    by_cases ha : a = el
    · subst ha
      rw [Function.update_self, links_eq hel]
    · rw [Function.update_of_ne ha, links_of_eq (hrest a ha)]
  have hrelinks : Relinks s t id el := fun a ha => Or.inl (hrest a ha)
  have hlocal := hrelinks.toLocal hx hel (Or.inr hown) (Or.inr hown)
  have hlists : t.lists = Function.update s.lists id (some l) := by
    rw [← hl, Function.update_eq_self]
  refine ⟨t, setEl_eq hx _, hs.update hlists rfl hlocal ⟨⟨?_, ?_⟩, ?_, fun a => ?_, ?_⟩, rfl, rfl⟩
  · rw [hlinks]
    exact hitems.fifo.chain.set_val (links_eq hx) w
  · have hlast := hitems.tail_eq
    rw [List.map_append, List.map_cons] at hlast
    rw [hlast, ← List.getLast?_map, List.map_append, List.map_cons]
  · simpa using hitems.count
  · have howned := hitems.owned a
    rw [List.map_append, List.map_cons] at howned ⊢
    rw [howned]
    by_cases ha : a = el
    · subst ha
      exact iff_of_true ⟨x, hx, hown⟩ ⟨_, hel, hown⟩
    · exact (hrelinks.owned ha).symm
  · simpa using hitems.cursor

theorem Formed.alloc (hs : s.Formed c) (hel : s.els el = none) (hfree : x.owner = none) :
    (s.alloc el x).Formed c := by
  refine ⟨fun a ha => ?_, fun id l hl => ?_⟩
  · have htop : s.top ≤ a ∧ el < a := Nat.max_le.mp ha
    exact (Function.update_of_ne (Nat.ne_of_gt htop.2) _ _).trans (hs.top a htop.1)
  · refine (hs.holds id l hl).congr fun a y hown => ?_
    by_cases ha : a = el
    · subst ha
      have hnew : (s.alloc a x).els a = some x := Function.update_self ..
      rw [hnew, hel]
      refine iff_of_false (fun h => ?_) (fun h => by cases h)
      cases h
      rw [hfree] at hown
      cases hown
    · rw [show (s.alloc el x).els a = s.els a from Function.update_of_ne ha _ _]

theorem Formed.free (hs : s.Formed c) (hx : s.els el = some x) (hfree : x.owner = none) :
    (s.lkElFree el).Formed c := by
  have hrest : ∀ a, a ≠ el → (s.lkElFree el).els a = s.els a := fun a ha =>
    Function.update_of_ne ha _ _
  have hgone : (s.lkElFree el).els el = none := Function.update_self ..
  refine ⟨fun a ha => ?_, fun id l hl => ?_⟩
  · by_cases hael : a = el
    · rw [hael, hgone]
    · rw [hrest a hael]
      exact hs.top a ha
  · refine (hs.holds id l hl).congr fun a y hown => ?_
    by_cases ha : a = el
    · subst ha
      rw [hgone, hx]
      refine iff_of_false (fun h => by cases h) (fun h => ?_)
      cases h
      rw [hfree] at hown
      cases hown
    · rw [hrest a ha]

/-! ### Appending -/

/-- The element, and the link of the last one, are all that `lk_list_append` writes. -/
theorem lkListAppend_eq (hs : s.Formed c) (hl : s.lists id = some l) (hx : s.els el = some x)
    (hfree : x.owner = none) : ∃ t, s.lkListAppend id el = some t ∧
      t.els el = some { x with owner := some id, next := none } ∧
      (∀ b y, l.tail = some b → s.els b = some y → t.els b = some { y with next := some el }) ∧
      (∀ b, b ≠ el → l.tail ≠ some b → t.els b = s.els b) ∧ t.top = s.top ∧
      t.lists = Function.update s.lists id (some { l with
        head := if l.tail = none then some el else l.head
        tail := some el
        count := l.count + 1 }) := by
  have hitems := hs.holds id l hl
  have hprev : ∀ b, l.tail = some b → b ≠ el ∧ ∃ y, s.els b = some y := by
    intro b hb
    obtain ⟨w, hw⟩ := hitems.tail_mem hb
    obtain ⟨y, hy, hown, -⟩ := hitems.owner_of_mem (List.mem_of_getLast? hw)
    refine ⟨?_, y, hy⟩
    rintro rfl
    rw [hx] at hy
    cases hy
    rw [hfree] at hown
    cases hown
  let taken : DevLists :=
    { s with els := Function.update s.els el (some { x with owner := some id, next := none }) }
  have htaken : ∀ b, l.tail = some b → taken.els b = s.els b := fun b hb =>
    Function.update_of_ne (hprev b hb).1 _ _
  have hexists : ∀ b, l.tail = some b → ∃ y, taken.els b = some y := by
    intro b hb
    obtain ⟨-, y, hy⟩ := hprev b hb
    exact ⟨y, (htaken b hb).trans hy⟩
  have hset : s.setEl el (fun x => { x with owner := some id, next := none }) = some taken :=
    setEl_eq hx _
  have hlists : taken.lists id = some l := hl
  obtain ⟨els, hlast, hrest, heq⟩ := setLink_eq hlists l.tail (some el) hexists
  refine ⟨{ s with
    els
    lists := Function.update s.lists id (some { l with
      head := if l.tail = none then some el else l.head
      tail := some el
      count := l.count + 1 }) }, ?_, ?_, fun b y hb hy => ?_, fun b hne hb => ?_, rfl, rfl⟩
  · rw [lkListAppend, hset]
    simp only [Option.bind_eq_bind, Option.bind_some, hlists, heq, setList, Function.update_self,
      Option.map_some, Function.update_idem]
    rfl
  · have hsame := hrest el fun hb => (hprev el hb).1 rfl
    exact hsame.trans (Function.update_self ..)
  · exact hlast b y hb ((htaken b hb).trans hy)
  · exact (hrest b hb).trans (Function.update_of_ne hne _ _)

theorem lkListAppend_spec (hs : s.Formed c) (hl : s.lists id = some l) (hx : s.els el = some x)
    (hfree : x.owner = none) : ∃ t l', s.lkListAppend id el = some t ∧
      t.Formed (Function.update c id (c id ++ [(el, x.pub)])) ∧
      t.lists = Function.update s.lists id (some l') ∧ l'.cursor = l.cursor ∧
      l'.started = l.started ∧ t.top = s.top ∧ Local s t id := by
  obtain ⟨t, heq, hel, hlast, hrest, htop, hlists⟩ := lkListAppend_eq hs hl hx hfree
  have hitems := hs.holds id l hl
  have htail : ∀ b w, (c id).getLast? = some (b, w) → ∃ y, s.els b = some y ∧
      y.owner = some id ∧ y.pub = w ∧ t.els b = some { y with next := some el } := by
    intro b w hb
    obtain ⟨y, hy, hown, hw⟩ := hitems.owner_of_mem (List.mem_of_getLast? hb)
    have htailb : l.tail = some b := by
      rw [hitems.fifo.last, hb]
      rfl
    exact ⟨y, hy, hown, hw, hlast b y htailb hy⟩
  have hnew : el ∉ (c id).map Prod.fst := by
    intro hmem
    obtain ⟨y, hy, hown⟩ := (hitems.owned el).mp hmem
    rw [hx] at hy
    cases hy
    rw [hfree] at hown
    cases hown
  have hrelinks : Relinks s t id el := by
    intro a ha
    by_cases hb : l.tail = some a
    · obtain ⟨w, hw⟩ := hitems.tail_mem hb
      obtain ⟨y, hy, hown, -, hya⟩ := htail a w hw
      exact Or.inr ⟨y, _, hy, hya, hown, hown⟩
    · exact Or.inl (hrest a ha hb)
  have hlocal := hrelinks.toLocal hx hel (Or.inl hfree) (Or.inr rfl)
  refine ⟨t, _, heq, hs.update hlists htop hlocal ⟨?_, ?_, ?_, ?_⟩, hlists, rfl, rfl, htop, hlocal⟩
  · apply hitems.fifo.append (links_eq hel)
    · intro b w hb
      obtain ⟨y, hy, -, hw, hby⟩ := htail b w hb
      rw [← hw]
      exact links_eq hby
    · intro b hb
      apply links_of_eq
      apply hrest b
      · rintro rfl
        exact hnew (List.map_subset _ (List.dropLast_subset _) hb)
      · intro htailb
        obtain ⟨w, hw⟩ := hitems.tail_mem htailb
        exact not_mem_dropLast_of_nodup hitems.nodup hw hb
  · simp [hitems.count]
  · intro a
    rw [List.map_append, List.mem_append, hitems.owned]
    by_cases ha : a = el
    · subst ha
      exact iff_of_true (Or.inr (List.mem_singleton_self a)) ⟨_, hel, rfl⟩
    · rw [hrelinks.owned ha]
      exact or_iff_left fun h => ha (List.mem_singleton.mp h)
  · intro a ha
    rw [List.map_append]
    exact List.mem_append_left _ (hitems.cursor a ha)

/-! ### Unlinking -/

section Unlink

variable {before after : List (ElId × DevInfo)} {v : DevInfo}

/-- The element, the link before it, and the pointers of the list are all that `lk_list_unlink`
writes. -/
theorem lkListUnlink_eq (hs : s.Formed c) (hl : s.lists id = some l)
    (hc : c id = before ++ (el, v) :: after) (hx : s.els el = some x) : ∃ t,
      s.lkListUnlink id el = some (t, true) ∧
      t.els el = some { x with next := none, owner := none } ∧
      (∀ b y, lastOr none before = some b → s.els b = some y →
        t.els b = some { y with next := x.next }) ∧
      (∀ b, b ≠ el → lastOr none before ≠ some b → t.els b = s.els b) ∧ t.top = s.top ∧
      t.lists = Function.update s.lists id (some { l with
        head := if lastOr none before = none then x.next else l.head
        cursor := if l.cursor = some el then lastOr none before else l.cursor
        tail := if l.tail = some el then lastOr none before else l.tail
        count := l.count - 1 }) := by
  have hitems := hs.holds id l hl
  have hchain := hitems.fifo.chain
  have hnodup := hitems.nodup
  have hlength := hs.length_lt hl
  rw [hc] at hitems hchain hnodup hlength
  rw [List.length_append, List.length_cons] at hlength
  have hnew : el ∉ before.map Prod.fst := by
    rw [List.map_append, List.map_cons, List.nodup_append] at hnodup
    exact fun hmem => hnodup.2.2 el hmem el List.mem_cons_self rfl
  have hfound : search s.links (fun a _ => a = el) (s.top + 1) none l.head =
      some (some el, lastOr none before) := by
    apply search_eq_some hchain
    · intro y hy
      exact decide_eq_false fun h => hnew (h ▸ List.mem_map_of_mem hy)
    · exact decide_eq_true rfl
    · omega
  have hprev : ∀ b, lastOr none before = some b → b ≠ el ∧ ∃ y, s.els b = some y := by
    intro b hb
    obtain ⟨w, hw⟩ := lastOr_none_eq_some hb
    have hmem := List.mem_of_getLast? hw
    obtain ⟨y, hy, -, -⟩ := hitems.owner_of_mem (List.mem_append_left _ hmem)
    exact ⟨fun h => hnew (h ▸ List.mem_map_of_mem hmem), y, hy⟩
  let moved : DevLists := { s with lists := Function.update s.lists id (some { l with
    cursor := if l.cursor = some el then lastOr none before else l.cursor }) }
  have hmoved : moved.lists id = some { l with
    cursor := if l.cursor = some el then lastOr none before else l.cursor } :=
      Function.update_self ..
  obtain ⟨els, hlast, hrest, heq⟩ := setLink_eq hmoved (lastOr none before) x.next
    fun b hb => (hprev b hb).2
  have hel : els el = some x := by
    have hsame := hrest el fun hb => (hprev el hb).1 rfl
    exact hsame.trans hx
  refine ⟨{ s with
    els := Function.update els el (some { x with next := none, owner := none })
    lists := Function.update s.lists id (some { l with
      head := if lastOr none before = none then x.next else l.head
      cursor := if l.cursor = some el then lastOr none before else l.cursor
      tail := if l.tail = some el then lastOr none before else l.tail
      count := l.count - 1 }) }, ?_, Function.update_self .., fun b y hb hy => ?_,
        fun b hne hb => ?_, rfl, rfl⟩
  · have hset : s.setList id (fun l => { l with
        cursor := if l.cursor = some el then lastOr none before else l.cursor }) = some moved :=
      setList_eq hl _
    have hxm : moved.els el = some x := hx
    rw [lkListUnlink]
    simp only [Option.bind_eq_bind, hl, Option.bind_some, hfound, hset, hxm, heq]
    simp [setList, setEl, hel, moved, Function.update_idem]
  · have hsame := hlast b y hb hy
    exact (Function.update_of_ne (hprev b hb).1 _ _).trans hsame
  · exact (Function.update_of_ne hne _ _).trans (hrest b hb)

theorem lkListUnlink_spec (hs : s.Formed c) (hl : s.lists id = some l)
    (hc : c id = before ++ (el, v) :: after) (hx : s.els el = some x) : ∃ t l',
      s.lkListUnlink id el = some (t, true) ∧
      t.Formed (Function.update c id (before ++ after)) ∧
      t.lists = Function.update s.lists id (some l') ∧
      l'.cursor = (if l.cursor = some el then lastOr none before else l.cursor) ∧
      l'.started = l.started ∧ t.top = s.top ∧ Local s t id ∧
      t.els el = some { x with next := none, owner := none } := by
  obtain ⟨t, heq, hel, hlast, hrest, htop, hlists⟩ := lkListUnlink_eq hs hl hc hx
  have hitems := hs.holds id l hl
  have hnodup := hitems.nodup
  rw [hc] at hitems hnodup
  have hown : x.owner = some id := by
    obtain ⟨y, hy, hown⟩ := (hitems.owned el).mp (by simp)
    rw [hx] at hy
    cases hy
    exact hown
  have hprev : ∀ b w, before.getLast? = some (b, w) → ∃ y, s.els b = some y ∧
      y.owner = some id ∧ y.pub = w ∧ t.els b = some { y with next := x.next } := by
    intro b w hb
    have hmem := List.mem_append_left ((el, v) :: after) (List.mem_of_getLast? hb)
    obtain ⟨y, hy, hown, hw⟩ := hitems.owner_of_mem hmem
    have hlastb : lastOr none before = some b := by
      rw [lastOr, hb]
      rfl
    exact ⟨y, hy, hown, hw, hlast b y hlastb hy⟩
  have hrelinks : Relinks s t id el := by
    intro a ha
    by_cases hb : lastOr none before = some a
    · obtain ⟨w, hw⟩ := lastOr_none_eq_some hb
      obtain ⟨y, hy, hown, -, hya⟩ := hprev a w hw
      exact Or.inr ⟨y, _, hy, hya, hown, hown⟩
    · exact Or.inl (hrest a ha hb)
  have hlocal := hrelinks.toLocal hx hel (Or.inr hown) (Or.inl rfl)
  have hmem : ∀ a, a ∈ (before ++ after).map Prod.fst ↔
      a ≠ el ∧ a ∈ (before ++ (el, v) :: after).map Prod.fst := by
    intro a
    have hout := hnodup
    rw [List.map_append, List.map_cons, List.nodup_middle, List.nodup_cons] at hout
    rw [List.map_append, List.map_append, List.map_cons, List.mem_append, List.mem_append,
      List.mem_cons]
    constructor
    · intro ha
      exact ⟨fun hae => hout.1 (hae ▸ List.mem_append.mpr ha), ha.imp_right Or.inr⟩
    · rintro ⟨hne, ha | ha | ha⟩
      · exact Or.inl ha
      · exact absurd ha hne
      · exact Or.inr ha
  have hpieces := hnodup
  rw [List.map_append, List.map_cons, List.nodup_append] at hpieces
  refine ⟨t, _, heq, hs.update hlists htop hlocal ⟨?_, ?_, ?_, ?_⟩, hlists, rfl, rfl, htop, hlocal,
    hel⟩
  · dsimp only
    simp only [lastOr_none_eq_none]
    have hlinks := links_eq hx
    have hmiddle : (el, v) ∈ before ++ (el, v) :: after :=
      List.mem_append_right _ List.mem_cons_self
    obtain ⟨n, hn⟩ := Seg.allocated hitems.fifo.chain hmiddle
    rw [hn] at hlinks
    cases hlinks
    apply hitems.fifo.remove hn
    · intro b w hb
      obtain ⟨y, hy, -, hw, hby⟩ := hprev b w hb
      rw [← hw]
      exact links_eq hby
    · intro b hb
      apply links_of_eq
      apply hrest b
      · rintro rfl
        have hbefore := List.map_subset Prod.fst (List.dropLast_subset _) hb
        exact hpieces.2.2 b hbefore b List.mem_cons_self rfl
      · intro hprevb
        obtain ⟨w, hw⟩ := lastOr_none_eq_some hprevb
        exact not_mem_dropLast_of_nodup hpieces.1 hw hb
    · intro b hb
      apply links_of_eq
      apply hrest b
      · rintro rfl
        exact (List.nodup_cons.mp hpieces.2.1).1 hb
      · intro hprevb
        obtain ⟨w, hw⟩ := lastOr_none_eq_some hprevb
        have hbefore := List.mem_map_of_mem (f := Prod.fst) (List.mem_of_getLast? hw)
        exact hpieces.2.2 b hbefore b (List.mem_cons_of_mem _ hb) rfl
  · have hcount := hitems.count
    simp only [List.length_append, List.length_cons] at hcount ⊢
    omega
  · intro a
    rw [hmem, hitems.owned]
    by_cases ha : a = el
    · subst ha
      refine iff_of_false (fun h => h.1 rfl) ?_
      rintro ⟨y, hy, hyown⟩
      rw [hel] at hy
      cases hy
      cases hyown
    · rw [hrelinks.owned ha]
      exact and_iff_right ha
  · intro a ha
    dsimp only at ha
    rw [hmem]
    split at ha
    · obtain ⟨w, hw⟩ := lastOr_none_eq_some ha
      have hbefore := List.mem_map_of_mem (f := Prod.fst) (List.mem_of_getLast? hw)
      refine ⟨?_, ?_⟩
      · rintro rfl
        exact hpieces.2.2 a hbefore a List.mem_cons_self rfl
      · rw [List.map_append]
        exact List.mem_append_left _ hbefore
    · rename_i hne
      exact ⟨fun hae => hne (hae ▸ ha), hitems.cursor a ha⟩

end Unlink

/-! ### The calls -/

/-- From `s`, where the lists have `c`, to `t`, where they have `c'`, no list but `list` changes. -/
structure Keeps (s t : DevLists) (c c' : ListId → List (ElId × DevInfo)) (list : Option ListId) :
    Prop where
  formed : t.Formed c'
  others : ∀ id, list ≠ some id → c' id = c id ∧ t.lists id = s.lists id
  lists : ∀ id, (t.lists id).isSome = (s.lists id).isSome

/-- And the same elements are in memory. -/
structure Changes (s t : DevLists) (c c' : ListId → List (ElId × DevInfo)) (list : Option ListId) :
    Prop extends Keeps s t c c' list where
  els : ∀ el, (t.els el).isSome = (s.els el).isSome

theorem Keeps.refl (hs : s.Formed c) (list : Option ListId) : Keeps s s c c list :=
  ⟨hs, fun _ _ => ⟨rfl, rfl⟩, fun _ => rfl⟩

theorem Keeps.trans {u : DevLists} {c' c'' : ListId → List (ElId × DevInfo)} {list : Option ListId}
    (h : Keeps s t c c' list) (h' : Keeps t u c' c'' list) : Keeps s u c c'' list := by
  refine ⟨h'.formed, fun id hid => ?_, fun id => (h'.lists id).trans (h.lists id)⟩
  obtain ⟨hc, hl⟩ := h.others id hid
  obtain ⟨hc', hl'⟩ := h'.others id hid
  exact ⟨hc'.trans hc, hl'.trans hl⟩

theorem Keeps.exists_list {c' : ListId → List (ElId × DevInfo)} {list : Option ListId}
    (h : Keeps s t c c' list) (hl : ∃ l, s.lists id = some l) : ∃ l, t.lists id = some l := by
  rw [← Option.isSome_iff_exists, h.lists, Option.isSome_iff_exists]
  exact hl

theorem Changes.refl (hs : s.Formed c) (list : Option ListId) : Changes s s c c list :=
  ⟨.refl hs list, fun _ => rfl⟩

theorem isSome_update {l' : Klst} (hl : s.lists id = some l)
    (hlists : t.lists = Function.update s.lists id (some l')) (id' : ListId) :
    (t.lists id').isSome = (s.lists id').isSome := by
  rw [hlists]
  by_cases hid : id' = id
  · rw [hid, Function.update_self, hl]
    rfl
  · rw [Function.update_of_ne hid]

theorem Changes.of_update {l' : Klst} (hl : s.lists id = some l)
    (ht : t.Formed (Function.update c id items))
    (hlists : t.lists = Function.update s.lists id (some l')) (hlocal : Local s t id) :
    Changes s t c (Function.update c id items) (some id) := by
  refine ⟨⟨ht, fun id' hne => ?_, isSome_update hl hlists⟩, hlocal.isSome⟩
  have hid : id' ≠ id := fun h => hne (congrArg some h.symm)
  rw [hlists]
  exact ⟨Function.update_of_ne hid _ _, Function.update_of_ne hid _ _⟩

/-- Only the cursor is moved. -/
theorem Changes.of_cursor (hs : s.Formed c) (hl : s.lists id = some l) (cursor : Option ElId)
    (hcursor : ∀ el, cursor = some el → el ∈ (c id).map Prod.fst) (started : Bool) :
    Changes s { s with lists := Function.update s.lists id (some { l with cursor, started }) } c c
      (some id) := by
  have hitems := hs.holds id l hl
  refine ⟨⟨⟨hs.top, fun id' l' hl' => ?_⟩, fun id' hne => ?_, isSome_update hl rfl⟩,
    fun _ => rfl⟩
  · dsimp only at hl'
    by_cases hid : id' = id
    · subst hid
      rw [Function.update_self] at hl'
      cases hl'
      exact ⟨hitems.fifo, hitems.count, hitems.owned, hcursor⟩
    · rw [Function.update_of_ne hid] at hl'
      have hother := hs.holds id' l' hl'
      exact ⟨hother.fifo, hother.count, hother.owned, hother.cursor⟩
  · have hid : id' ≠ id := fun h => hne (congrArg some h.symm)
    exact ⟨rfl, Function.update_of_ne hid _ _⟩

theorem lstKMoveReset_spec (hs : s.Formed c) (hl : s.lists id = some l) : ∃ t,
    s.lstKMoveReset (some id) = some t ∧ Changes s t c c (some id) ∧
      t.lists id = some { l with cursor := none, started := false } :=
  ⟨_, setList_eq hl _, .of_cursor hs hl none (fun _ h => by cases h) false, Function.update_self ..⟩

/-- Where `LstK_MoveNext` goes in a list of `els`: to the first element, to the one behind the
cursor, or off the list. -/
inductive Next (l : Klst) (els : List ElId) (next : Option ElId) : Prop
  | first (hstarted : l.started = false) (hnext : next = els.head?)
  | off (hstarted : l.started = true) (hcursor : l.cursor = none) (hnext : next = none)
  | behind (el : ElId) (hstarted : l.started = true) (hcursor : l.cursor = some el)
    (hmem : el ∈ els) (hnext : ∀ before after, els = before ++ el :: after → next = after.head?)

theorem Next.mem {els : List ElId} {next : Option ElId} (h : Next l els next) :
    ∀ el, next = some el → el ∈ els := by
  rintro el rfl
  cases h with
  | first _ hnext => exact List.mem_of_head? hnext.symm
  | off _ _ hnext => cases hnext
  | behind el' _ _ hmem hnext =>
    obtain ⟨before, after, rfl⟩ := List.append_of_mem hmem
    have hhead := List.mem_of_head? (hnext before after rfl).symm
    exact List.mem_append_right _ (List.mem_cons_of_mem _ hhead)

theorem exists_split {before after : List ElId} (h : items.map Prod.fst = before ++ el :: after) :
    ∃ before' v after', items = before' ++ (el, v) :: after' ∧ before'.map Prod.fst = before ∧
      after'.map Prod.fst = after := by
  obtain ⟨before', rest, hsplit, hbefore, hrest⟩ := List.map_eq_append_iff.mp h
  obtain ⟨⟨el', v⟩, after', rfl, rfl, hafter⟩ := List.map_eq_cons_iff.mp hrest
  exact ⟨before', v, after', hsplit, hbefore, hafter⟩

theorem lstKMoveNext_spec (hs : s.Formed c) (hl : s.lists id = some l) : ∃ t next,
    s.lstKMoveNext (some id) = some (t, next) ∧ Changes s t c c (some id) ∧
      t.lists id = some { l with cursor := next, started := true } ∧
      Next l ((c id).map Prod.fst) next := by
  have hitems := hs.holds id l hl
  have hchain := hitems.fifo.chain
  have hgoes : ∃ next, s.moveTo l = some next ∧ Next l ((c id).map Prod.fst) next := by
    unfold moveTo
    cases hstarted : l.started with
    | false => exact ⟨_, rfl, .first hstarted hchain.head_eq⟩
    | true =>
      rw [if_pos rfl]
      cases hcursor : l.cursor with
      | none => exact ⟨_, rfl, .off hstarted hcursor rfl⟩
      | some el =>
        have hmem := hitems.cursor el hcursor
        obtain ⟨x, hx, -⟩ := (hitems.owned el).mp hmem
        refine ⟨x.next, by simp only [hx, Option.map_some], .behind el hstarted hcursor hmem ?_⟩
        intro before after hels
        obtain ⟨before', v, after', hsplit, -, rfl⟩ := exists_split hels
        rw [hsplit] at hchain
        have hnext := hchain.next_eq
        rw [links_eq hx] at hnext
        exact congrArg Cell.next (Option.some.inj hnext)
  obtain ⟨next, hnext, hgo⟩ := hgoes
  refine ⟨_, next, ?_, .of_cursor hs hl next hgo.mem true, Function.update_self .., hgo⟩
  rw [lstKMoveNext]
  simp only [hl, Option.bind_eq_bind, Option.bind_some, hnext, setList, Option.map_some]
  rfl

theorem lstKAttachInfo_spec (hs : s.Formed c) (hl : s.lists id = some l) (hx : s.els el = some x) :
    ∃ t ok c', s.lstKAttachInfo (some id) (some el) = some (t, ok) ∧ Changes s t c c' (some id) := by
  by_cases hfree : x.owner = none
  · obtain ⟨t, l', heq, hformed, hlists, -, -, -, hlocal⟩ := lkListAppend_spec hs hl hx hfree
    refine ⟨t, true, _, ?_, .of_update hl hformed hlists hlocal⟩
    simp [lstKAttachInfo, hx, hfree, heq]
  · refine ⟨s, false, c, ?_, .refl hs _⟩
    simp [lstKAttachInfo, hx, hfree]

/-- Detaching takes an element out of its list, and moves a cursor on it to the element before. -/
theorem lstKDetachInfo_of_mem (hs : s.Formed c) (hl : s.lists id = some l)
    {before after : List ElId} (hc : (c id).map Prod.fst = before ++ el :: after) :
    ∃ t c' l', s.lstKDetachInfo (some id) (some el) = some (t, true) ∧ Changes s t c c' (some id) ∧
      (c' id).map Prod.fst = before ++ after ∧ t.lists id = some l' ∧
      l'.cursor = (if l.cursor = some el then before.getLast? else l.cursor) ∧
      l'.started = l.started := by
  obtain ⟨before', v, after', hsplit, rfl, rfl⟩ := exists_split hc
  have hmem : (el, v) ∈ c id := by
    rw [hsplit]
    exact List.mem_append_right _ List.mem_cons_self
  obtain ⟨x, hx, hown, -⟩ := (hs.holds id l hl).owner_of_mem hmem
  obtain ⟨t, l', heq, hformed, hlists, hcursor, hstarted, -, hlocal, -⟩ :=
    lkListUnlink_spec hs hl hsplit hx
  have hlast : lastOr none before' = (before'.map Prod.fst).getLast? := by
    rw [lastOr, Option.or_none, List.getLast?_map]
  refine ⟨t, _, l', ?_, .of_update hl hformed hlists hlocal, ?_, ?_, hlast ▸ hcursor, hstarted⟩
  · simp [lstKDetachInfo, hx, hown, heq]
  · rw [Function.update_self, List.map_append]
  · rw [hlists, Function.update_self]

theorem lstKDetachInfo_spec (hs : s.Formed c) (hl : s.lists id = some l) (hx : s.els el = some x) :
    ∃ t ok c', s.lstKDetachInfo (some id) (some el) = some (t, ok) ∧ Changes s t c c' (some id) := by
  by_cases hown : x.owner = some id
  · have hmem := ((hs.holds id l hl).owned el).mpr ⟨x, hx, hown⟩
    obtain ⟨before, after, hsplit⟩ := List.append_of_mem hmem
    obtain ⟨t, c', -, heq, hchanges, -⟩ := lstKDetachInfo_of_mem hs hl hsplit
    exact ⟨t, true, c', heq, hchanges⟩
  · refine ⟨s, false, c, ?_, .refl hs _⟩
    simp [lstKDetachInfo, hx, hown]

end DevLists

end Usbip.Libusbk
