import Mathlib.Data.List.Nodup
import Mathlib.Data.List.Perm.Subperm
import Mathlib.Data.Set.Insert
import Mathlib.Logic.Function.Basic
import Mathlib.Tactic.Common

/-! Singly linked lists in a heap of cells: `Seg` says which cells lie between two pointers, and the
lemmas say what writing one `next` field does to them. -/

namespace Usbip.Lib

/-- A cell of a linked list: a value and the address of the next cell, `none` for a null pointer. -/
structure Cell (A V : Type*) where
  next : Option A
  val : V
  deriving DecidableEq, Repr

variable {A V : Type*}

/-- `Seg heap p l q`: following `next` from `p` visits the cells `l`, in order, and leads to
`q`. -/
def Seg (heap : A → Option (Cell A V)) : Option A → List (A × V) → Option A → Prop
  | p, [], q => p = q
  | p, (a, v) :: l, q => p = some a ∧ ∃ n, heap a = some ⟨n, v⟩ ∧ Seg heap n l q

/-- A list that ends with a null pointer. -/
abbrev Chain (heap : A → Option (Cell A V)) (p : Option A) (l : List (A × V)) : Prop :=
  Seg heap p l none

/-- The cells met in at most `fuel` steps along `next` from a pointer. -/
def follow (heap : A → Option (Cell A V)) : Nat → Option A → List (A × V)
  | 0, _ => []
  | _ + 1, none => []
  | fuel + 1, some a =>
    match heap a with
    | none => []
    | some c => (a, c.val) :: follow heap fuel c.next

variable {heap : A → Option (Cell A V)} {p q r : Option A} {l l' : List (A × V)}

@[simp] theorem seg_nil : Seg heap p [] q ↔ p = q := Iff.rfl

@[simp] theorem seg_cons {a : A} {v : V} :
    Seg heap p ((a, v) :: l) q ↔ p = some a ∧ ∃ n, heap a = some ⟨n, v⟩ ∧ Seg heap n l q := Iff.rfl

theorem seg_append : Seg heap p (l ++ l') r ↔ ∃ q, Seg heap p l q ∧ Seg heap q l' r := by
  induction l generalizing p with
  | nil => simp
  | cons x l ih =>
    obtain ⟨a, v⟩ := x
    simp only [List.cons_append, seg_cons, ih]
    constructor
    · rintro ⟨rfl, n, hn, q, h1, h2⟩
      exact ⟨q, ⟨rfl, n, hn, h1⟩, h2⟩
    · rintro ⟨q, ⟨rfl, n, hn, h1⟩, h2⟩
      exact ⟨rfl, n, hn, q, h1, h2⟩

theorem Chain.unique (h : Chain heap p l) (h' : Chain heap p l') : l = l' := by
  induction l generalizing p l' with
  | nil =>
    cases l' with
    | nil => rfl
    | cons x l' => cases h; cases h'.1
  | cons x l ih =>
    obtain ⟨a, v⟩ := x
    obtain ⟨rfl, n, hn, hl⟩ := h
    cases l' with
    | nil => cases h'
    | cons y l' =>
      obtain ⟨b, w⟩ := y
      obtain ⟨hb, m, hm, hl'⟩ := h'
      cases hb
      cases hn.symm.trans hm
      rw [ih hl hl']

/-- A null-terminated list visits no cell twice: the rest of the list would follow both visits. -/
theorem Chain.nodup (h : Chain heap p l) : (l.map Prod.fst).Nodup := by
  induction l generalizing p with
  | nil => exact List.nodup_nil
  | cons x l ih =>
    obtain ⟨a, v⟩ := x
    have hl := h
    obtain ⟨rfl, n, hn, hrest⟩ := h
    refine List.nodup_cons.mpr ⟨fun hmem => ?_, ih hrest⟩
    obtain ⟨⟨b, w⟩, hb, rfl⟩ := List.mem_map.mp hmem
    obtain ⟨l1, l2, rfl⟩ := List.append_of_mem hb
    obtain ⟨m, -, hm⟩ := seg_append.mp hrest
    have hsame : Chain heap (some b) ((b, w) :: l2) := ⟨rfl, hm.2⟩
    have := congrArg List.length (Chain.unique hl hsame)
    simp at this
    omega

theorem not_mem_of_nodup_concat {a : A} {v : V}
    (h : ((l ++ [(a, v)]).map Prod.fst).Nodup) : a ∉ l.map Prod.fst := by
  rw [List.map_append, List.nodup_append] at h
  exact fun ha => h.2.2 a ha a (by simp) rfl

theorem not_mem_dropLast_of_nodup {a : A} {v : V} (hnodup : (l.map Prod.fst).Nodup)
    (hlast : l.getLast? = some (a, v)) : a ∉ l.dropLast.map Prod.fst := by
  obtain ⟨init, rfl⟩ := List.getLast?_eq_some_iff.mp hlast
  rw [List.dropLast_concat]
  exact not_mem_of_nodup_concat hnodup

theorem Seg.congr {heap' : A → Option (Cell A V)} (h : Seg heap p l q)
    (same : ∀ a ∈ l.map Prod.fst, heap' a = heap a) : Seg heap' p l q := by
  induction l generalizing p with
  | nil => exact h
  | cons x l ih =>
    obtain ⟨a, v⟩ := x
    obtain ⟨rfl, n, hn, hl⟩ := h
    exact ⟨rfl, n, by rw [same a (by simp), hn], ih hl fun b hb => same b (by simp [hb])⟩

theorem Seg.allocated (h : Seg heap p l q) {a : A} {v : V} (hmem : (a, v) ∈ l) :
    ∃ n, heap a = some ⟨n, v⟩ := by
  induction l generalizing p with
  | nil => cases hmem
  | cons x l ih =>
    obtain ⟨b, w⟩ := x
    obtain ⟨rfl, n, hn, hl⟩ := h
    rcases List.mem_cons.mp hmem with h | h
    · cases h; exact ⟨n, hn⟩
    · exact ih hl h

/-- Redirecting the last cell's `next` redirects the whole segment. -/
theorem Seg.redirect [DecidableEq A] {a : A} {v : V} (h : Seg heap p (l ++ [(a, v)]) q)
    (fresh : a ∉ l.map Prod.fst) (r : Option A) :
    Seg (Function.update heap a (some ⟨r, v⟩)) p (l ++ [(a, v)]) r := by
  obtain ⟨m, h1, rfl, n, hn, hnq⟩ := seg_append.mp h
  refine seg_append.mpr ⟨some a, h1.congr fun b hb => ?_, rfl, r, by simp, rfl⟩
  exact Function.update_of_ne (fun hba : b = a => fresh (hba ▸ hb)) _ _

theorem Chain.head_eq (h : Chain heap p l) : p = (l.map Prod.fst).head? := by
  cases l with
  | nil => exact h
  | cons x l => exact h.1

/-- A cell of a list leads to the one behind it. -/
theorem Chain.next_eq {a : A} {before after : List (A × V)} {v : V}
    (h : Chain heap p (before ++ (a, v) :: after)) :
    heap a = some ⟨(after.map Prod.fst).head?, v⟩ := by
  obtain ⟨q, -, hq⟩ := seg_append.mp h
  obtain ⟨rfl, n, hn, hafter⟩ := hq
  rw [hn, Chain.head_eq hafter]

/-- Writing the value of a cell leaves the links as they are. -/
theorem Chain.set_val [DecidableEq A] {before after : List (A × V)} {a : A} {v : V} {n : Option A}
    (h : Chain heap p (before ++ (a, v) :: after)) (ha : heap a = some ⟨n, v⟩) (w : V) :
    Chain (Function.update heap a (some ⟨n, w⟩)) p (before ++ (a, w) :: after) := by
  have hnodup := h.nodup
  rw [List.map_append, List.map_cons] at hnodup
  have hout := (List.nodup_cons.mp (List.nodup_middle.mp hnodup)).1
  have hsame : ∀ b, b ∈ before.map Prod.fst ++ after.map Prod.fst →
      Function.update heap a (some ⟨n, w⟩) b = heap b := by
    intro b hb
    exact Function.update_of_ne (fun hba : b = a => hout (hba ▸ hb)) _ _
  obtain ⟨q, hbefore, rfl, n', hn', hafter⟩ := seg_append.mp h
  rw [ha] at hn'
  cases hn'
  refine seg_append.mpr ⟨some a, hbefore.congr fun b hb => ?_, rfl, n, Function.update_self .., ?_⟩
  · exact hsame b (List.mem_append_left _ hb)
  · exact hafter.congr fun b hb => hsame b (List.mem_append_right _ hb)

/-- Goes from `p` along `next` to the first cell that `stop` picks, with `prev` before `p`: that
cell, if there is one, and the cell before it.  `none` when a cell is not in the heap or there are
more than `fuel` steps. -/
def search (heap : A → Option (Cell A V)) (stop : A → V → Bool) :
    Nat → Option A → Option A → Option (Option A × Option A)
  | 0, _, _ => none
  | _ + 1, prev, none => some (none, prev)
  | fuel + 1, prev, some a =>
    match heap a with
    | none => none
    | some c => if stop a c.val then some (some a, prev) else search heap stop fuel (some a) c.next

/-- The last address of a list of cells, or else `prev`. -/
def lastOr (prev : Option A) (l : List (A × V)) : Option A := (l.getLast?.map Prod.fst).or prev

theorem lastOr_cons (prev : Option A) (x : A × V) (l : List (A × V)) :
    lastOr prev (x :: l) = lastOr (some x.1) l := by
  cases l with
  | nil => rfl
  | cons y l =>
    rw [lastOr, lastOr, List.getLast?_cons_cons]
    cases h : (y :: l).getLast? with
    | none => simp at h
    | some z => rfl

theorem lastOr_none_eq_none : lastOr none l = none ↔ l = [] := by
  rw [lastOr, Option.or_none, Option.map_eq_none_iff, List.getLast?_eq_none_iff]

theorem lastOr_none_eq_some {a : A} (h : lastOr none l = some a) :
    ∃ v, l.getLast? = some (a, v) := by
  rw [lastOr, Option.or_none] at h
  obtain ⟨⟨b, v⟩, hv, rfl⟩ := Option.map_eq_some_iff.mp h
  exact ⟨v, hv⟩

theorem search_eq_some {stop : A → V → Bool} {before after : List (A × V)} {a : A} {v : V}
    (h : Chain heap p (before ++ (a, v) :: after)) (hbefore : ∀ x ∈ before, stop x.1 x.2 = false)
    (hstop : stop a v = true) {fuel : Nat} (hfuel : before.length < fuel) (prev : Option A) :
    search heap stop fuel prev p = some (some a, lastOr prev before) := by
  induction before generalizing p prev fuel with
  | nil =>
    obtain ⟨rfl, n, hn, -⟩ := h
    cases fuel with
    | zero => omega
    | succ fuel => simp [search, hn, hstop, lastOr]
  | cons x before ih =>
    obtain ⟨hx, hlater⟩ := List.forall_mem_cons.mp hbefore
    obtain ⟨b, w⟩ := x
    obtain ⟨rfl, n, hn, hrest⟩ := h
    cases fuel with
    | zero => omega
    | succ fuel =>
      rw [List.length_cons] at hfuel
      have hlt : before.length < fuel := by omega
      rw [lastOr_cons, ← ih hrest hlater hlt (some b), search, hn]
      exact if_neg (by simp [hx])

theorem search_eq_none {stop : A → V → Bool} (h : Chain heap p l)
    (hl : ∀ x ∈ l, stop x.1 x.2 = false) {fuel : Nat} (hfuel : l.length < fuel)
    (prev : Option A) : search heap stop fuel prev p = some (none, lastOr prev l) := by
  induction l generalizing p prev fuel with
  | nil =>
    obtain rfl : p = none := h
    cases fuel with
    | zero => omega
    | succ fuel => rfl
  | cons x l ih =>
    obtain ⟨hx, hlater⟩ := List.forall_mem_cons.mp hl
    obtain ⟨b, w⟩ := x
    obtain ⟨rfl, n, hn, hrest⟩ := h
    cases fuel with
    | zero => omega
    | succ fuel =>
      rw [List.length_cons] at hfuel
      have hlt : l.length < fuel := by omega
      rw [lastOr_cons, ← ih hrest hlater hlt (some b), search, hn]
      exact if_neg (by simp [hx])

/-- The list has as many cells as fit in the addresses below `top`. -/
theorem Chain.length_le {heap : Nat → Option (Cell Nat V)} {p : Option Nat} {l : List (Nat × V)}
    (h : Chain heap p l) {top : Nat} (htop : ∀ a, top ≤ a → heap a = none) : l.length ≤ top := by
  have hsub : l.map Prod.fst ⊆ List.range top := by
    intro a ha
    obtain ⟨⟨b, v⟩, hb, rfl⟩ := List.mem_map.mp ha
    obtain ⟨n, hn⟩ := Seg.allocated h hb
    rw [List.mem_range]
    by_contra hlt
    rw [htop b (by omega)] at hn
    cases hn
  have hlen := (h.nodup.subperm hsub).length_le
  rwa [List.length_map, List.length_range] at hlen

/-- A queue: a list with a pointer to its last cell. -/
structure Fifo (heap : A → Option (Cell A V)) (head tail : Option A) (l : List (A × V)) : Prop where
  chain : Chain heap head l
  last : tail = l.getLast?.map Prod.fst

namespace Fifo

variable {heap' : A → Option (Cell A V)} {head tail : Option A}

theorem empty : Fifo heap none none [] := ⟨rfl, rfl⟩

theorem congr (h : Fifo heap head tail l) (same : ∀ a ∈ l.map Prod.fst, heap' a = heap a) :
    Fifo heap' head tail l := ⟨h.chain.congr same, h.last⟩

/-- The first cell leaves the queue. -/
theorem pop {a : A} (h : Fifo heap (some a) tail l) : ∃ v rest n, l = (a, v) :: rest ∧
    heap a = some ⟨n, v⟩ ∧ ∀ next, next = n → ∀ tail',
      (next = none → tail' = none) → (next ≠ none → tail' = tail) → Fifo heap next tail' rest := by
  cases l with
  | nil => cases h.chain
  | cons x rest =>
    obtain ⟨b, v⟩ := x
    obtain ⟨hhead, n, hn, hrest⟩ := h.chain
    cases hhead
    refine ⟨v, rest, n, rfl, hn, ?_⟩
    rintro next rfl tail' hnone hsome
    refine ⟨hrest, ?_⟩
    cases rest with
    | nil => exact hnone hrest
    | cons y rest =>
      have hne : next ≠ none := by
        rintro rfl
        cases hrest.1
      rw [hsome hne, h.last, List.getLast?_cons_cons]

/-- A cell is put behind the last one. -/
theorem append {a : A} {v : V} (h : Fifo heap head tail l) (hnew : heap' a = some ⟨none, v⟩)
    (hlast : ∀ b w, l.getLast? = some (b, w) → heap' b = some ⟨some a, w⟩)
    (hrest : ∀ b ∈ l.dropLast.map Prod.fst, heap' b = heap b) :
    Fifo heap' (if tail = none then some a else head) (some a) (l ++ [(a, v)]) := by
  refine ⟨?_, by simp⟩
  rcases List.eq_nil_or_concat l with rfl | ⟨init, ⟨b, w⟩, rfl⟩
  · have htail : tail = none := h.last
    rw [if_pos htail]
    exact ⟨rfl, none, hnew, rfl⟩
  · rw [List.concat_eq_append] at *
    have htail : tail = some b := by rw [h.last]; simp
    rw [List.dropLast_concat] at hrest
    obtain ⟨p, hinit, hp, n, hn, -⟩ := seg_append.mp h.chain
    rw [if_neg (by simp [htail])]
    refine seg_append.mpr ⟨some a, seg_append.mpr ⟨p, hinit.congr hrest, hp, some a, ?_, rfl⟩, rfl,
      none, hnew, rfl⟩
    exact hlast b w (by simp)

/-- The cells before and after a cell are the queue, when the one before it is made to lead past
it. -/
theorem remove [DecidableEq A] {a : A} {v : V} {before after : List (A × V)}
    (h : Fifo heap head tail (before ++ (a, v) :: after)) {n : Option A}
    (ha : heap a = some ⟨n, v⟩)
    (hlast : ∀ b w, before.getLast? = some (b, w) → heap' b = some ⟨n, w⟩)
    (hinit : ∀ b ∈ before.dropLast.map Prod.fst, heap' b = heap b)
    (hafter : ∀ b ∈ after.map Prod.fst, heap' b = heap b) :
    Fifo heap' (if before = [] then n else head)
      (if tail = some a then lastOr none before else tail) (before ++ after) := by
  obtain ⟨p, hbefore, hp, n', hn', hrest⟩ := seg_append.mp h.chain
  obtain rfl : n = n' := by
    rw [ha] at hn'
    cases hn'
    rfl
  have hrest' := Seg.congr hrest hafter
  refine ⟨?_, ?_⟩
  · rcases List.eq_nil_or_concat before with rfl | ⟨init, ⟨b, w⟩, rfl⟩
    · rw [if_pos rfl]
      exact hrest'
    · rw [List.concat_eq_append] at *
      rw [List.dropLast_concat] at hinit
      rw [if_neg (by simp)]
      obtain ⟨q, hq, rfl, m, -, -⟩ := seg_append.mp hbefore
      refine seg_append.mpr ⟨n, seg_append.mpr ⟨some b, hq.congr hinit, rfl, n, ?_, rfl⟩, hrest'⟩
      exact hlast b w (by simp)
  · have hnodup := Chain.nodup h.chain
    rw [h.last]
    rcases List.eq_nil_or_concat after with rfl | ⟨init, ⟨b, w⟩, rfl⟩
    · simp [lastOr]
    · have hne : b ≠ a := by
        rintro rfl
        simp [List.nodup_append] at hnodup
      have hlastb : (before ++ (a, v) :: (init ++ [(b, w)])).getLast? = some (b, w) := by
        rw [← List.cons_append, ← List.append_assoc, List.getLast?_concat]
      rw [List.concat_eq_append, hlastb, ← List.append_assoc, List.getLast?_concat]
      simp [hne]

end Fifo

/-- Following `next` from a pointer visits the cells of a set, each once, and ends. -/
def Visits (heap : A → Option (Cell A V)) (p : Option A) (S : Set A) : Prop :=
  ∃ l, Chain heap p l ∧ ∀ a, a ∈ l.map Prod.fst ↔ a ∈ S

/-- A queue with the cells of a set. -/
def Lines (heap : A → Option (Cell A V)) (head tail : Option A) (S : Set A) : Prop :=
  ∃ l, Fifo heap head tail l ∧ ∀ a, a ∈ l.map Prod.fst ↔ a ∈ S

section Sets

variable {heap' : A → Option (Cell A V)} {head tail : Option A} {S : Set A}

theorem Visits.empty : Visits heap none ∅ := ⟨[], rfl, by simp⟩

theorem Visits.eq_empty (h : Visits heap none S) : S = ∅ := by
  obtain ⟨l, hl, hS⟩ := h
  cases l with
  | nil => exact Set.eq_empty_of_forall_notMem fun a ha => by simpa using (hS a).mpr ha
  | cons x l => cases hl.1

theorem Visits.congr (h : Visits heap p S) (same : ∀ a ∈ S, heap' a = heap a) :
    Visits heap' p S := by
  obtain ⟨l, hl, hS⟩ := h
  exact ⟨l, Seg.congr hl fun a ha => same a ((hS a).mp ha), hS⟩

theorem mem_rest_iff {a b : A} {v : V} {rest : List (A × V)}
    (hnodup : (((a, v) :: rest).map Prod.fst).Nodup)
    (hS : ∀ c, c ∈ ((a, v) :: rest).map Prod.fst ↔ c ∈ S) :
    b ∈ rest.map Prod.fst ↔ b ∈ S \ {a} := by
  rw [List.map_cons, List.nodup_cons] at hnodup
  rw [Set.mem_sdiff, ← hS b, List.map_cons, List.mem_cons, Set.mem_singleton_iff]
  constructor
  · intro hb
    exact ⟨.inr hb, fun hab => hnodup.1 (hab ▸ hb)⟩
  · rintro ⟨hab | hb, hne⟩
    · exact absurd hab hne
    · exact hb

theorem Visits.pop {a : A} (h : Visits heap (some a) S) :
    a ∈ S ∧ ∃ c, heap a = some c ∧ Visits heap c.next (S \ {a}) := by
  obtain ⟨l, hl, hS⟩ := h
  cases l with
  | nil => cases hl
  | cons x rest =>
    obtain ⟨b, v⟩ := x
    have hnodup := Chain.nodup hl
    obtain ⟨hb, n, hn, hrest⟩ := hl
    cases hb
    exact ⟨(hS a).mp (by simp), _, hn, rest, hrest, fun c => mem_rest_iff hnodup hS⟩

theorem Lines.empty : Lines heap none none ∅ := ⟨[], .empty, by simp⟩

theorem Lines.visits (h : Lines heap head tail S) : Visits heap head S := by
  obtain ⟨l, hl, hS⟩ := h
  exact ⟨l, hl.chain, hS⟩

theorem Lines.congr (h : Lines heap head tail S) (same : ∀ a ∈ S, heap' a = heap a) :
    Lines heap' head tail S := by
  obtain ⟨l, hl, hS⟩ := h
  exact ⟨l, hl.congr fun a ha => same a ((hS a).mp ha), hS⟩

theorem Lines.tail_mem {a : A} (h : Lines heap head (some a) S) : a ∈ S := by
  obtain ⟨l, hl, hS⟩ := h
  obtain ⟨x, hx, rfl⟩ := Option.map_eq_some_iff.mp hl.last.symm
  exact (hS _).mp (List.mem_map_of_mem (List.mem_of_getLast? hx))

theorem Lines.pop [DecidableEq A] {a : A} (h : Lines heap (some a) tail S) :
    a ∈ S ∧ ∃ c, heap a = some c ∧
      Lines heap c.next (if c.next = none then none else tail) (S \ {a}) := by
  obtain ⟨l, hl, hS⟩ := h
  have hnodup := Chain.nodup hl.chain
  obtain ⟨v, rest, n, rfl, hn, hpop⟩ := hl.pop
  refine ⟨(hS a).mp (by simp), _, hn, rest, ?_, fun c => mem_rest_iff hnodup hS⟩
  refine hpop n rfl _ (fun hnone => if_pos hnone) (fun hsome => if_neg hsome)

/-- A cell that is not in the queue is put behind the last one. -/
theorem Lines.append {a : A} {v : V} (h : Lines heap head tail S) (hnew : heap' a = some ⟨none, v⟩)
    (hlast : ∀ b, tail = some b → ∀ c, heap b = some c → heap' b = some ⟨some a, c.val⟩)
    (hrest : ∀ b ∈ S, tail ≠ some b → heap' b = heap b) :
    Lines heap' (if tail = none then some a else head) (some a) (insert a S) := by
  obtain ⟨l, hl, hS⟩ := h
  refine ⟨l ++ [(a, v)], hl.append hnew ?_ ?_, fun b => ?_⟩
  · intro b w hb
    obtain ⟨n, hn⟩ := Seg.allocated hl.chain (List.mem_of_getLast? hb)
    exact hlast b (by rw [hl.last, hb]; rfl) _ hn
  · intro b hb
    rcases List.eq_nil_or_concat l with rfl | ⟨init, ⟨c, w⟩, rfl⟩
    · simp at hb
    · rw [List.concat_eq_append] at *
      rw [List.dropLast_concat] at hb
      refine hrest b ((hS b).mp ?_) ?_
      · rw [List.map_append]
        exact List.mem_append_left _ hb
      · rw [hl.last]
        rintro heq
        simp only [List.getLast?_concat, Option.map_some, Option.some.injEq] at heq
        subst heq
        exact not_mem_of_nodup_concat (Chain.nodup hl.chain) hb
  · rw [List.map_append, List.mem_append, hS, Set.mem_insert_iff, or_comm]
    simp

end Sets

theorem follow_eq_of_chain (h : Chain heap p l) {fuel : Nat} (hf : l.length ≤ fuel) :
    follow heap fuel p = l := by
  induction l generalizing p fuel with
  | nil =>
    cases h
    cases fuel <;> rfl
  | cons x l ih =>
    obtain ⟨a, v⟩ := x
    obtain ⟨rfl, n, hn, hl⟩ := h
    cases fuel with
    | zero => simp at hf
    | succ fuel =>
      simp only [follow, hn]
      rw [ih hl (by simp at hf; omega)]

end Usbip.Lib
