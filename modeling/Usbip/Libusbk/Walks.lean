import Usbip.Lib.Run
import Usbip.Libusbk.Lists

/-! Walks along a device list with `LstK_MoveNext`, during which elements leave the list. -/

namespace Usbip.Libusbk

open Lib

inductive LstCall
  | moveReset (list : Option ListId)
  | moveNext (list : Option ListId)
  | attachInfo (list : Option ListId) (info : Option ElId)
  | detachInfo (list : Option ListId) (info : Option ElId)
  deriving DecidableEq, Repr

namespace LstCall

/-- The list that a call is about. -/
def list : LstCall → Option ListId
  | moveReset list | moveNext list | attachInfo list _ | detachInfo list _ => list

def info : LstCall → Option ElId
  | moveReset _ | moveNext _ => none
  | attachInfo _ info | detachInfo _ info => info

/-- The handles of a call are null or point to something. -/
def Valid (s : DevLists) (call : LstCall) : Prop :=
  (∀ id, call.list = some id → (s.lists id).isSome) ∧ ∀ el, call.info = some el → (s.els el).isSome

end LstCall

/-- A walk along one list: the elements that `LstK_MoveNext` has returned, and whether it has said
that there are no more. -/
structure Walk where
  heap : DevLists
  visited : List ElId
  ended : Bool

namespace Walk

/-- One call, in a walk along the list `id`. -/
def step (id : ListId) (w : Walk) : LstCall → Option Walk
  | .moveReset list => (w.heap.lstKMoveReset list).map fun s => { w with heap := s }
  | .moveNext list => (w.heap.lstKMoveNext list).map fun r =>
    if list = some id then ⟨r.1, w.visited ++ r.2.toList, r.2.isNone⟩ else { w with heap := r.1 }
  | .attachInfo list info => (w.heap.lstKAttachInfo list info).map fun r => { w with heap := r.1 }
  | .detachInfo list info => (w.heap.lstKDetachInfo list info).map fun r => { w with heap := r.1 }

/-- The calls of a walk along the list `id`: nothing is attached to the list, its cursor is not
reset, and what is detached from it is the current element. -/
def Along (id : ListId) (w : Walk) : LstCall → Prop
  | .moveReset list => list ≠ some id
  | .moveNext _ => True
  | .attachInfo list _ => list ≠ some id
  | .detachInfo list info =>
    list = some id → ∃ l, w.heap.lists id = some l ∧ info = l.cursor

/-- The current element is detached only when an element is before it or none is after it. -/
def Anchored (id : ListId) (w : Walk) : LstCall → Prop
  | .detachInfo list info =>
    ∀ el l, list = some id → info = some el → w.heap.lists id = some l →
      l.head ≠ some el ∨ l.tail = some el
  | _ => True

variable {id : ListId} {w : Walk} {c : ListId → List (ElId × DevInfo)} {call : LstCall}

/-- A call with valid handles comes back, and leaves all lists but its own as they are. -/
theorem step_changes (hs : w.heap.Formed c) (hvalid : call.Valid w.heap) (id : ListId) :
    ∃ w' c', step id w call = some w' ∧ w.heap.Changes w'.heap c c' call.list ∧
      (call.list ≠ some id → w'.visited = w.visited ∧ w'.ended = w.ended) := by
  obtain ⟨hlist, hinfo⟩ := hvalid
  cases call with
  | moveReset list =>
    cases list with
    | none => exact ⟨_, c, rfl, .refl hs _, fun _ => ⟨rfl, rfl⟩⟩
    | some list =>
      obtain ⟨l, hl⟩ := Option.isSome_iff_exists.mp (hlist list rfl)
      obtain ⟨t, ht, hchanges, -⟩ := DevLists.lstKMoveReset_spec hs hl
      exact ⟨{ w with heap := t }, c, by rw [step, ht]; rfl, hchanges, fun _ => ⟨rfl, rfl⟩⟩
  | moveNext list =>
    cases list with
    | none => exact ⟨_, c, rfl, .refl hs _, fun _ => ⟨rfl, rfl⟩⟩
    | some list =>
      obtain ⟨l, hl⟩ := Option.isSome_iff_exists.mp (hlist list rfl)
      obtain ⟨t, next, ht, hchanges, -⟩ := DevLists.lstKMoveNext_spec hs hl
      by_cases hid : some list = some id
      · refine ⟨⟨t, w.visited ++ next.toList, next.isNone⟩, c, ?_, hchanges, fun h => absurd hid h⟩
        rw [step, ht, Option.map_some, if_pos hid]
      · refine ⟨{ w with heap := t }, c, ?_, hchanges, fun _ => ⟨rfl, rfl⟩⟩
        rw [step, ht, Option.map_some, if_neg hid]
  | attachInfo list info =>
    cases list with
    | none => exact ⟨_, c, rfl, .refl hs _, fun _ => ⟨rfl, rfl⟩⟩
    | some list =>
      cases info with
      | none => exact ⟨_, c, rfl, .refl hs _, fun _ => ⟨rfl, rfl⟩⟩
      | some el =>
        obtain ⟨l, hl⟩ := Option.isSome_iff_exists.mp (hlist list rfl)
        obtain ⟨x, hx⟩ := Option.isSome_iff_exists.mp (hinfo el rfl)
        obtain ⟨t, ok, c', ht, hchanges⟩ := DevLists.lstKAttachInfo_spec hs hl hx
        exact ⟨{ w with heap := t }, c', by rw [step, ht]; rfl, hchanges, fun _ => ⟨rfl, rfl⟩⟩
  | detachInfo list info =>
    cases list with
    | none => exact ⟨_, c, rfl, .refl hs _, fun _ => ⟨rfl, rfl⟩⟩
    | some list =>
      cases info with
      | none => exact ⟨_, c, rfl, .refl hs _, fun _ => ⟨rfl, rfl⟩⟩
      | some el =>
        obtain ⟨l, hl⟩ := Option.isSome_iff_exists.mp (hlist list rfl)
        obtain ⟨x, hx⟩ := Option.isSome_iff_exists.mp (hinfo el rfl)
        obtain ⟨t, ok, c', ht, hchanges⟩ := DevLists.lstKDetachInfo_spec hs hl hx
        exact ⟨{ w with heap := t }, c', by rw [step, ht]; rfl, hchanges, fun _ => ⟨rfl, rfl⟩⟩

/-- A walk in its course along a list that had the elements `start` and now has `els`: not begun, at
an element with all that is behind it still to come, or through. -/
inductive Course (l : Klst) (els start visited : List ElId) (ended : Bool) : Prop
  | fresh (hstarted : l.started = false) (hcursor : l.cursor = none) (hels : els = start)
    (hvisited : visited = []) (hended : ended = false)
  | midway (before : List ElId) (el : ElId) (after : List ElId) (hstarted : l.started = true)
    (hcursor : l.cursor = some el) (hels : els = before ++ el :: after)
    (hvisited : visited ++ after = start) (hended : ended = false)
  | through (hstarted : l.started = true) (hcursor : l.cursor = none) (hvisited : visited = start)

/-- A walk that has lost its place before the end. -/
structure Astray (l : Klst) (start visited : List ElId) : Prop where
  started : l.started = true
  cursor : l.cursor = none
  missing : ∃ rest, rest ≠ [] ∧ visited ++ rest = start

variable {l : Klst} {els start visited : List ElId} {ended : Bool}

theorem Course.isPrefix (h : Course l els start visited ended) : visited <+: start := by
  cases h with
  | fresh _ _ _ hvisited _ => exact hvisited ▸ List.nil_prefix
  | midway before el after _ _ _ hvisited _ => exact ⟨after, hvisited⟩
  | through _ _ hvisited => exact hvisited ▸ List.prefix_rfl

theorem Course.eq_of_ended (h : Course l els start visited true) : visited = start := by
  cases h with
  | fresh _ _ _ _ hended => cases hended
  | midway before el after _ _ _ _ hended => cases hended
  | through _ _ hvisited => exact hvisited

/-- A move in the course of a walk. -/
theorem Course.next {next : Option ElId} (h : Course l els start visited ended)
    (hnext : DevLists.Next l els next) :
    Course { l with cursor := next, started := true } els start (visited ++ next.toList)
      next.isNone := by
  cases h with
  | fresh hstarted hcursor hels hvisited _ =>
    cases hnext with
    | first _ hnext =>
      subst hels hvisited
      cases els with
      | nil =>
        subst hnext
        exact .through rfl rfl rfl
      | cons el after =>
        subst hnext
        exact .midway [] el after rfl rfl rfl rfl rfl
    | off hstarted' => simp [hstarted] at hstarted'
    | behind el hstarted' => simp [hstarted] at hstarted'
  | midway before el after hstarted hcursor hels hvisited _ =>
    cases hnext with
    | first hstarted' => simp [hstarted] at hstarted'
    | off _ hcursor' => simp [hcursor] at hcursor'
    | behind el' _ hcursor' _ hnext =>
      obtain rfl : el = el' := Option.some.inj (hcursor.symm.trans hcursor')
      have hnext := hnext before after hels
      cases after with
      | nil =>
        subst hnext
        exact .through rfl rfl hvisited
      | cons el' after =>
        subst hnext
        refine .midway (before ++ [el]) el' after rfl rfl ?_ ?_ rfl
        · rw [hels, List.append_assoc]
          rfl
        · rw [← hvisited, List.append_assoc]
          rfl
  | through hstarted hcursor hvisited =>
    cases hnext with
    | first hstarted' => simp [hstarted] at hstarted'
    | off _ _ hnext =>
      subst hnext
      exact .through rfl rfl (by rw [hvisited]; exact List.append_nil _)
    | behind el' _ hcursor' => simp [hcursor] at hcursor'

theorem Astray.next {next : Option ElId} (h : Astray l start visited)
    (hnext : DevLists.Next l els next) :
    Astray { l with cursor := next, started := true } start (visited ++ next.toList) := by
  have hstarted := h.started
  have hcursor := h.cursor
  cases hnext with
  | first hstarted' => simp [hstarted] at hstarted'
  | off _ _ hnext =>
    subst hnext
    exact ⟨rfl, rfl, by simpa using h.missing⟩
  | behind el' _ hcursor' => simp [hcursor] at hcursor'

/-- Where the element is in the list tells what detaching it does to a walk that is at it. -/
theorem anchored_iff {before after : List ElId} {el : ElId}
    (hnodup : (before ++ el :: after).Nodup) :
    (before ++ el :: after).head? ≠ some el ∨ (before ++ el :: after).getLast? = some el ↔
      before ≠ [] ∨ after = [] := by
  have hsides := List.nodup_middle.mp hnodup
  have hel : el ∉ before ∧ el ∉ after := by
    simpa using (List.nodup_cons.mp hsides).1
  have hhead : (before ++ el :: after).head? ≠ some el ↔ before ≠ [] := by
    cases before with
    | nil => simp
    | cons b before =>
      refine iff_of_true (fun h => hel.1 ?_) (List.cons_ne_nil _ _)
      exact Option.some.inj h ▸ List.mem_cons_self
  have hlast : (before ++ el :: after).getLast? = some el ↔ after = [] := by
    rcases List.eq_nil_or_concat after with rfl | ⟨init, b, rfl⟩
    · simp
    · refine iff_of_false (fun h => hel.2 ?_) (by simp)
      rw [List.concat_eq_append, ← List.cons_append, ← List.append_assoc, List.getLast?_concat] at h
      rw [List.concat_eq_append]
      exact Option.some.inj h ▸ List.mem_append_right _ (List.mem_singleton_self b)
  rw [hhead, hlast]

/-- The list is well formed, and the walk along it in its course. -/
def On (id : ListId) (start : List ElId) (w : Walk) : Prop :=
  ∃ c l, w.heap.Formed c ∧ w.heap.lists id = some l ∧
    Course l ((c id).map Prod.fst) start w.visited w.ended

def Off (id : ListId) (start : List ElId) (w : Walk) : Prop :=
  ∃ c l, w.heap.Formed c ∧ w.heap.lists id = some l ∧ Astray l start w.visited

variable {w' : Walk}

/-- A call about another list leaves the walk where it is. -/
theorem step_other (hs : w.heap.Formed c) (hvalid : call.Valid w.heap)
    (hother : call.list ≠ some id) (h : step id w call = some w') :
    ∃ c', w'.heap.Formed c' ∧ c' id = c id ∧ w'.heap.lists id = w.heap.lists id ∧
      w'.visited = w.visited ∧ w'.ended = w.ended := by
  obtain ⟨w'', c', hstep, hchanges, hsame⟩ := step_changes hs hvalid id
  obtain rfl : w' = w'' := Option.some.inj (h.symm.trans hstep)
  obtain ⟨hc, hl⟩ := hchanges.others id hother
  exact ⟨c', hchanges.formed, hc, hl, hsame hother⟩

theorem anchored_of_other (hother : call.list ≠ some id) : Anchored id w call := by
  cases call with
  | detachInfo list info => exact fun el l hlist => absurd hlist hother
  | _ => trivial

theorem step_moveNext (hs : w.heap.Formed c) (hl : w.heap.lists id = some l)
    (h : step id w (.moveNext (some id)) = some w') : ∃ next, w'.heap.Formed c ∧
      w'.heap.lists id = some { l with cursor := next, started := true } ∧
      DevLists.Next l ((c id).map Prod.fst) next ∧
      w'.visited = w.visited ++ next.toList ∧ w'.ended = next.isNone := by
  obtain ⟨t, next, ht, hchanges, hl', hnext⟩ := DevLists.lstKMoveNext_spec hs hl
  rw [step, ht, Option.map_some, if_pos rfl] at h
  cases h
  exact ⟨next, hchanges.formed, hl', hnext, rfl, rfl⟩

/-- The current element is detached: the walk goes on from the element before it, or has come to the
end, or is lost. -/
theorem step_detach {before after : List ElId} {el : ElId} (hs : w.heap.Formed c)
    (hl : w.heap.lists id = some l) (hels : (c id).map Prod.fst = before ++ el :: after)
    (hstarted : l.started = true) (hcursor : l.cursor = some el)
    (hvisited : w.visited ++ after = start) (hended : w.ended = false)
    (h : step id w (.detachInfo (some id) (some el)) = some w') :
    (before ≠ [] ∨ after = [] → On id start w') ∧
      (¬(before ≠ [] ∨ after = []) → Off id start w') := by
  obtain ⟨t, c', l', ht, hchanges, hc', hl', hcursor', hstarted'⟩ :=
    DevLists.lstKDetachInfo_of_mem hs hl hels
  rw [step, ht] at h
  cases h
  rw [if_pos hcursor] at hcursor'
  have hformed := hchanges.formed
  constructor
  · intro hsides
    refine ⟨c', l', hformed, hl', ?_⟩
    rw [hc']
    rcases List.eq_nil_or_concat before with rfl | ⟨init, b, rfl⟩
    · have hafter := hsides.resolve_left fun h => h rfl
      subst hafter
      exact .through (hstarted'.trans hstarted) hcursor' (by simpa using hvisited)
    · rw [List.concat_eq_append] at hcursor' ⊢
      rw [List.getLast?_concat] at hcursor'
      refine .midway init b after (hstarted'.trans hstarted) hcursor' ?_ hvisited hended
      rw [List.append_assoc]
      rfl
  · intro hsides
    rw [not_or, not_not] at hsides
    obtain ⟨rfl, hafter⟩ := hsides
    exact ⟨c', l', hformed, hl', hstarted'.trans hstarted, hcursor', after, hafter, hvisited⟩

theorem on_step (hon : On id start w) (halong : Along id w call) (hvalid : call.Valid w.heap)
    (h : step id w call = some w') :
    (Anchored id w call → On id start w') ∧ (¬Anchored id w call → Off id start w') := by
  obtain ⟨c, l, hs, hl, hcourse⟩ := hon
  by_cases hlist : call.list = some id
  · cases call with
    | moveReset list => exact absurd hlist halong
    | attachInfo list info => exact absurd hlist halong
    | moveNext list =>
      obtain rfl : list = some id := hlist
      refine ⟨fun _ => ?_, fun hnot => absurd trivial hnot⟩
      obtain ⟨next, hs', hl', hnext, hvisited, hended⟩ := step_moveNext hs hl h
      have hcourse' := hcourse.next hnext
      rw [← hvisited, ← hended] at hcourse'
      exact ⟨c, _, hs', hl', hcourse'⟩
    | detachInfo list info =>
      obtain rfl : list = some id := hlist
      obtain ⟨l', hl', rfl⟩ := halong rfl
      obtain rfl : l = l' := Option.some.inj (hl.symm.trans hl')
      have hstill : l.cursor = none → (Anchored id w (.detachInfo (some id) l.cursor) ∧ w' = w) := by
        intro hcursor
        refine ⟨fun el l' _ hel => by simp [hcursor] at hel, ?_⟩
        rw [hcursor] at h
        exact (Option.some.inj h).symm
      have hcase := hcourse
      cases hcase with
      | fresh _ hcursor _ _ _ =>
        obtain ⟨hanchored, rfl⟩ := hstill hcursor
        exact ⟨fun _ => ⟨c, l, hs, hl, hcourse⟩, fun hnot => absurd hanchored hnot⟩
      | through _ hcursor _ =>
        obtain ⟨hanchored, rfl⟩ := hstill hcursor
        exact ⟨fun _ => ⟨c, l, hs, hl, hcourse⟩, fun hnot => absurd hanchored hnot⟩
      | midway before el after hstarted hcursor hels hvisited hended =>
        have hitems := hs.holds id l hl
        have hnodup := hitems.nodup
        have hhead := hitems.head_eq
        have htail := hitems.tail_eq
        rw [hels] at hnodup hhead htail
        have hiff : Anchored id w (.detachInfo (some id) l.cursor) ↔ before ≠ [] ∨ after = [] := by
          rw [← anchored_iff hnodup, ← hhead, ← htail]
          constructor
          · intro hanchored
            exact hanchored el l rfl hcursor hl
          · rintro hends el' l' - hel' hl'
            obtain rfl : el = el' := Option.some.inj (hcursor.symm.trans hel')
            obtain rfl : l = l' := Option.some.inj (hl.symm.trans hl')
            exact hends
        rw [hiff]
        rw [hcursor] at h
        exact step_detach hs hl hels hstarted hcursor hvisited hended h
  · obtain ⟨c', hs', hc, hl', hvisited, hended⟩ := step_other hs hvalid hlist h
    refine ⟨fun _ => ⟨c', l, hs', hl'.trans hl, ?_⟩, fun hnot => absurd (anchored_of_other hlist) hnot⟩
    rw [hc, hvisited, hended]
    exact hcourse

/-- A walk that is lost stays lost. -/
theorem off_step (hoff : Off id start w) (halong : Along id w call) (hvalid : call.Valid w.heap)
    (h : step id w call = some w') : Off id start w' := by
  obtain ⟨c, l, hs, hl, hastray⟩ := hoff
  by_cases hlist : call.list = some id
  · cases call with
    | moveReset list => exact absurd hlist halong
    | attachInfo list info => exact absurd hlist halong
    | moveNext list =>
      obtain rfl : list = some id := hlist
      obtain ⟨next, hs', hl', hnext, hvisited, -⟩ := step_moveNext hs hl h
      have hastray' := hastray.next hnext
      rw [← hvisited] at hastray'
      exact ⟨c, _, hs', hl', hastray'⟩
    | detachInfo list info =>
      obtain rfl : list = some id := hlist
      obtain ⟨l', hl', rfl⟩ := halong rfl
      obtain rfl : l = l' := Option.some.inj (hl.symm.trans hl')
      rw [hastray.cursor] at h
      cases h
      exact ⟨c, l, hs, hl, hastray⟩
  · obtain ⟨c', hs', -, hl', hvisited, -⟩ := step_other hs hvalid hlist h
    refine ⟨c', l, hs', hl'.trans hl, ?_⟩
    rw [hvisited]
    exact hastray

/-! ### Runs -/

/-- The lists are well formed throughout any calls with valid handles. -/
theorem run_formed (id : ListId) {calls : List LstCall} (hs : w.heap.Formed c)
    (hvalid : ∀ call ∈ calls, call.Valid w.heap) : (∃ u, exec (step id) w calls = some u) ∧
      Throughout (step id) (fun u => ∃ c, u.heap.Formed c) w calls ∧
      Guarded (step id) (fun u call => call.Valid u.heap) w calls := by
  induction calls generalizing w c with
  | nil => exact ⟨⟨w, rfl⟩, ⟨c, hs⟩, trivial⟩
  | cons call calls ih =>
    obtain ⟨hcall, hrest⟩ := List.forall_mem_cons.mp hvalid
    obtain ⟨u, c', hstep, hchanges, -⟩ := step_changes hs hcall id
    have hkept : ∀ later ∈ calls, later.Valid u.heap := by
      intro later hmem
      obtain ⟨hlist, hinfo⟩ := hrest later hmem
      refine ⟨fun id' hid' => ?_, fun el hel => ?_⟩
      · rw [hchanges.lists]
        exact hlist id' hid'
      · rw [hchanges.els]
        exact hinfo el hel
    obtain ⟨⟨v, hv⟩, hformed, hguard⟩ := ih hchanges.formed hkept
    refine ⟨⟨v, ?_⟩, ⟨⟨c, hs⟩, fun t ht => ?_⟩, hcall, fun t ht => ?_⟩
    · rw [exec_cons, hstep, Option.bind_some, hv]
    · obtain rfl : u = t := Option.some.inj (hstep.symm.trans ht)
      exact hformed
    · obtain rfl : u = t := Option.some.inj (hstep.symm.trans ht)
      exact hguard

/-- In every run of calls the lists stay well formed; and a walk that has come to its end has
visited the elements that its list had at the start, in order, exactly when the current element was
never detached at the head of a list that went on behind it. -/
theorem walk_iff_anchored (id : ListId) {s : DevLists} (hs : s.Formed c) {calls : List LstCall}
    (hvalid : ∀ call ∈ calls, call.Valid s) : ∃ w, exec (step id) ⟨s, [], false⟩ calls = some w ∧
      Throughout (step id) (fun u => ∃ c, u.heap.Formed c) ⟨s, [], false⟩ calls ∧
      ∀ l, s.lists id = some l → l.started = false → l.cursor = none →
        Guarded (step id) (Along id) ⟨s, [], false⟩ calls →
        ((c id).map Prod.fst).Nodup ∧ w.visited <+: (c id).map Prod.fst ∧
        (w.ended = true → (w.visited = (c id).map Prod.fst ↔
          Guarded (step id) (Anchored id) ⟨s, [], false⟩ calls)) := by
  obtain ⟨⟨w, hw⟩, hformed, hguard⟩ := run_formed (w := ⟨s, [], false⟩) id hs hvalid
  refine ⟨w, hw, hformed, fun l hl hstarted hcursor halong => ?_⟩
  have hon : On id ((c id).map Prod.fst) ⟨s, [], false⟩ :=
    ⟨c, l, hs, hl, .fresh hstarted hcursor rfl rfl rfl⟩
  refine ⟨(hs.holds id l hl).nodup, ?_⟩
  have hend := exec_split (I := On id ((c id).map Prod.fst)) (B := Off id ((c id).map Prod.fst))
    (C := Anchored id) (fun u call t hi hd hC ht => (on_step hi hd.1 hd.2 ht).1 hC)
    (fun u call t hi hd hC ht => (on_step hi hd.1 hd.2 ht).2 hC)
    (fun u call t hb hd ht => off_step hb hd.1 hd.2 ht) hon (halong.and hguard) hw
  rcases hend with ⟨hanchored, c', l', -, -, hcourse⟩ | ⟨hnot, c', l', -, -, hastray⟩
  · refine ⟨hcourse.isPrefix, fun hended => ?_⟩
    rw [hended] at hcourse
    exact iff_of_true hcourse.eq_of_ended hanchored
  · obtain ⟨rest, hrest, hvisited⟩ := hastray.missing
    refine ⟨⟨rest, hvisited⟩, fun _ => iff_of_false (fun hall => hrest ?_) hnot⟩
    rw [hall] at hvisited
    exact List.append_right_eq_self.mp hvisited

/-- A list of two devices. -/
def twoDevices : DevLists where
  els
    | 0 => some ⟨⟨[0x41], 1, klstSyncFlagUnchanged⟩, some 0, some 1⟩
    | 1 => some ⟨⟨[0x42], 1, klstSyncFlagUnchanged⟩, some 0, none⟩
    | _ => none
  lists
    | 0 => some ⟨some 0, some 1, none, false, 2⟩
    | _ => none
  top := 2

def twoItems : ListId → List (ElId × DevInfo) :=
  Function.update (fun _ => []) 0
    [(0, ⟨[0x41], 1, klstSyncFlagUnchanged⟩), (1, ⟨[0x42], 1, klstSyncFlagUnchanged⟩)]

theorem twoDevices_formed : twoDevices.Formed twoItems := by
  refine ⟨?_, ?_⟩
  · rintro (_ | _ | el) hel
    · exact absurd hel (by decide)
    · exact absurd hel (by decide)
    · rfl
  · rintro (_ | id) l hl
    · cases hl
      refine ⟨⟨⟨rfl, some 1, rfl, rfl, none, rfl, rfl⟩, rfl⟩, rfl, ?_, fun _ h => by cases h⟩
      rintro (_ | _ | el)
      · exact iff_of_true (by decide) ⟨_, rfl, rfl⟩
      · exact iff_of_true (by decide) ⟨_, rfl, rfl⟩
      · refine iff_of_false ?_ (fun ⟨_, hx, _⟩ => by cases hx)
        simp [twoItems]
    · cases hl

/-- Moves to the first element, detaches it, and moves on. -/
def detachFirst : List LstCall :=
  [.moveNext (some 0), .detachInfo (some 0) (some 0), .moveNext (some 0)]

/-- Moves to the second element, detaches it, and moves on. -/
def detachSecond : List LstCall :=
  [.moveNext (some 0), .moveNext (some 0), .detachInfo (some 0) (some 1), .moveNext (some 0)]

theorem walk_detachSecond : ∃ w, exec (step 0) ⟨twoDevices, [], false⟩ detachSecond = some w ∧
    w.ended = true ∧ w.visited = [0, 1] := by
  have hvalid : ∀ call ∈ detachSecond, call.Valid twoDevices := by
    simp only [detachSecond, List.forall_mem_cons, LstCall.Valid, LstCall.list, LstCall.info]
    refine ⟨?_, ?_, ?_, ?_, List.forall_mem_nil _⟩ <;>
      (refine ⟨fun id h => ?_, fun el h => ?_⟩ <;> cases h <;> rfl)
  obtain ⟨w, hw, -, hwalk⟩ := walk_iff_anchored 0 twoDevices_formed hvalid
  have halong : Guarded (step 0) (Along 0) ⟨twoDevices, [], false⟩ detachSecond := by
    refine ⟨trivial, fun t ht => ?_⟩
    cases ht
    refine ⟨trivial, fun t ht => ?_⟩
    cases ht
    refine ⟨fun _ => ⟨_, rfl, rfl⟩, fun t ht => ?_⟩
    cases ht
    exact ⟨trivial, fun _ _ => trivial⟩
  have hanchored : Guarded (step 0) (Anchored 0) ⟨twoDevices, [], false⟩ detachSecond := by
    refine ⟨trivial, fun t ht => ?_⟩
    cases ht
    refine ⟨trivial, fun t ht => ?_⟩
    cases ht
    refine ⟨fun el l _ hel hl => ?_, fun t ht => ⟨trivial, fun _ _ => trivial⟩⟩
    cases hel
    cases hl
    exact Or.inr rfl
  obtain ⟨-, -, hiff⟩ := hwalk _ rfl rfl rfl halong
  have hended : w.ended = true := by
    cases hw
    rfl
  exact ⟨w, hw, hended, (hiff hended).mpr hanchored⟩

/-- The second device is never visited. -/
theorem walk_detachFirst : twoDevices.Formed twoItems ∧ (twoItems 0).map Prod.fst = [0, 1] ∧
    Guarded (step 0) (Along 0) ⟨twoDevices, [], false⟩ detachFirst ∧
    ∃ w, exec (step 0) ⟨twoDevices, [], false⟩ detachFirst = some w ∧ w.ended = true ∧
      w.visited = [0] := by
  refine ⟨twoDevices_formed, rfl, ⟨trivial, fun t ht => ?_⟩, _, rfl, rfl, rfl⟩
  cases ht
  refine ⟨fun _ => ⟨_, rfl, rfl⟩, fun t ht => ?_⟩
  cases ht
  exact ⟨trivial, fun _ _ => trivial⟩

end Walk

end Usbip.Libusbk
