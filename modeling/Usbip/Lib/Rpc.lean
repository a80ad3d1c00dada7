import Mathlib.Logic.Basic

/-! Programs that call a service, and the same programs over a connection: the caller puts a request on
one stream, and takes the reply off the other before it goes on. -/

namespace Usbip.Lib

/-- A program that makes calls.  What it does next may depend on what a call returns. -/
inductive Calls (Q R α : Type)
  | done (a : α)
  | call (q : Q) (next : R → Calls Q R α)

variable {S T C Q R A B α β : Type}

namespace Calls

/-- The program on the service itself. -/
def run (serve : S → Q → S × R) : S → Calls Q R α → S × α
  | s, done a => (s, a)
  | s, call q next => (next (serve s q).2).run serve (serve s q).1

/-- Each call that the program makes of the service meets `ok`. -/
def Meets (serve : S → Q → S × R) (ok : S → Q → Prop) : S → Calls Q R α → Prop
  | _, done _ => True
  | s, call q next => ok s q ∧ (next (serve s q).2).Meets serve ok (serve s q).1

/-- One program after another. -/
def bind : Calls Q R α → (α → Calls Q R β) → Calls Q R β
  | done a, f => f a
  | call q next, f => call q fun r => (next r).bind f

theorem run_bind (serve : S → Q → S × R) (s : S) (p : Calls Q R α) (f : α → Calls Q R β) :
    (p.bind f).run serve s = (f (p.run serve s).2).run serve (p.run serve s).1 := by
  induction p generalizing s with
  | done a => rfl
  | call q next ih => exact ih _ _

/-- The calls of a program that goes on after another. -/
theorem Meets.bind {serve : S → Q → S × R} {ok : S → Q → Prop} {s : S} {p : Calls Q R α}
    {f : α → Calls Q R β} (hp : p.Meets serve ok s)
    (hf : (f (p.run serve s).2).Meets serve ok (p.run serve s).1) : (p.bind f).Meets serve ok s := by
  induction p generalizing s with
  | done a => exact hf
  | call q next ih => exact ⟨hp.1, ih _ hp.2 hf⟩

/-- The calls of a program meet `ok`, and it ends with `post`. -/
structure Leads (serve : S → Q → S × R) (ok : S → Q → Prop) (s : S) (p : Calls Q R α)
    (post : S → α → Prop) : Prop where
  meets : p.Meets serve ok s
  post : post (p.run serve s).1 (p.run serve s).2

section

variable {serve : S → Q → S × R} {ok : S → Q → Prop} {s : S} {p : Calls Q R α}
  {post : S → α → Prop}

theorem Leads.done {a : α} (h : post s a) : Leads serve ok s (.done a) post := ⟨trivial, h⟩

theorem Leads.call {q : Q} {next : R → Calls Q R α} (hq : ok s q)
    (h : Leads serve ok (serve s q).1 (next (serve s q).2) post) :
    Leads serve ok s (.call q next) post := ⟨⟨hq, h.meets⟩, h.post⟩

theorem Leads.mono {post' : S → α → Prop} (h : Leads serve ok s p post)
    (himp : ∀ s a, post s a → post' s a) : Leads serve ok s p post' := ⟨h.meets, himp _ _ h.post⟩

theorem Leads.bind {mid : S → α → Prop} {f : α → Calls Q R β} {post : S → β → Prop}
    (h : Leads serve ok s p mid) (hf : ∀ s a, mid s a → Leads serve ok s (f a) post) :
    Leads serve ok s (p.bind f) post := by
  have hnext := hf _ _ h.post
  refine ⟨h.meets.bind hnext.meets, ?_⟩
  rw [run_bind]
  exact hnext.post

end

/-- The program of a caller whose calls a driver with the states `D` makes, each by calls of the
service below. -/
def expand {D Q' R' : Type} (driver : D → Q' → Calls Q R (D × R')) : D → Calls Q' R' α →
    Calls Q R (D × α)
  | d, done a => done (d, a)
  | d, call q next => (driver d q).bind fun got => (next got.2).expand driver got.1

/-- A driver that makes a service out of the one below, call by call, makes it for a whole program. -/
theorem Leads.expand {D Q' R' U : Type} (driver : D → Q' → Calls Q R (D × R')) (rel : S → U → Prop)
    {serve : S → Q → S × R} {ok : S → Q → Prop} {serve' : U → Q' → U × R'} {ok' : U → Q' → Prop}
    (hdriver : ∀ d s u q, rel s u → ok' u q → Leads serve ok s (driver d q) fun s' got =>
      rel s' (serve' u q).1 ∧ got.2 = (serve' u q).2)
    {p : Calls Q' R' α} {s : S} {u : U} (hs : rel s u) (hp : p.Meets serve' ok' u) (d : D) :
    Leads serve ok s (p.expand driver d) fun s' got =>
      rel s' (p.run serve' u).1 ∧ got.2 = (p.run serve' u).2 := by
  induction p generalizing s u d with
  | done a => exact .done ⟨hs, rfl⟩
  | call q next ih =>
    refine (hdriver d s u q hs hp.1).bind fun s' got h => ?_
    obtain ⟨hrel, hgot⟩ := h
    rw [hgot]
    exact ih (serve' u q).2 hrel hp.2 got.1

end Calls

/-- A connection to a service with states `S`, for callers with states `C`.  What is under way to the
service is a list of `A`, and to the caller one of `B`. -/
structure Link (S C Q R A B : Type) where
  /-- the request -/
  send : C → Q → C × List A
  /-- a turn of the server: the reply to the first request on the stream, and what is left of the
  stream -/
  turn : S → List A → Option (S × List B × List A)
  /-- the first reply on the stream to a caller that has sent its request, and what is left of it -/
  recv : C → Q → List B → Option (R × List B)

/-- The two ends of a connection, and what is under way. -/
structure Ends (S C A B : Type) where
  server : S
  client : C
  toServer : List A
  toClient : List B

namespace Link

variable (link : Link S C Q R A B)

/-- One call, when neither end waits for what does not come. -/
def exchange (e : Ends S C A B) (q : Q) : Option (Ends S C A B × R) :=
  let sent := link.send e.client q
  (link.turn e.server (e.toServer ++ sent.2)).bind fun served =>
    (link.recv sent.1 q (e.toClient ++ served.2.1)).map fun got =>
      (⟨served.1, sent.1, served.2.2, got.2⟩, got.1)

/-- The program over the connection. -/
def run : Ends S C A B → Calls Q R α → Option (Ends S C A B × α)
  | e, .done a => some (e, a)
  | e, .call q next => (link.exchange e q).bind fun got => run got.1 (next got.2)

/-- In states that `rel` relates, a request that meets `ok` makes the server do what the service does,
and its reply is read to the end. -/
def Carries (rel : S → T → Prop) (serve : T → Q → T × R) (ok : T → Q → Prop) : Prop :=
  ∀ s t c q, rel s t → ok t q → ∃ s' reply,
    link.turn s (link.send c q).2 = some (s', reply, []) ∧ rel s' (serve t q).1 ∧
      link.recv (link.send c q).1 q reply = some ((serve t q).2, [])

variable {link} {rel : S → T → Prop} {serve : T → Q → T × R} {ok : T → Q → Prop}

theorem Carries.exchange (h : link.Carries rel serve ok) {s : S} {t : T} {q : Q} (hs : rel s t)
    (hq : ok t q) (c : C) : ∃ s', rel s' (serve t q).1 ∧
      link.exchange ⟨s, c, [], []⟩ q =
        some (⟨s', (link.send c q).1, [], []⟩, (serve t q).2) := by
  obtain ⟨s', reply, hturn, hrel, hrecv⟩ := h s t c q hs hq
  refine ⟨s', hrel, ?_⟩
  simp only [Link.exchange, List.nil_append, hturn, Option.bind_some, hrecv, Option.map_some]

/-- Over a connection with nothing under way, a program whose calls meet `ok` gets what it gets on the
service itself, the ends stay related, and nothing is left under way. -/
theorem Carries.run (h : link.Carries rel serve ok) {s : S} {t : T} {p : Calls Q R α} (hs : rel s t)
    (hp : p.Meets serve ok t) (c : C) : ∃ s' c', rel s' (p.run serve t).1 ∧
      link.run ⟨s, c, [], []⟩ p = some (⟨s', c', [], []⟩, (p.run serve t).2) := by
  induction p generalizing s t c with
  | done a => exact ⟨s, c, hs, rfl⟩
  | call q next ih =>
    obtain ⟨s₁, hs₁, hex⟩ := h.exchange hs hp.1 c
    obtain ⟨s', c', hrel, hrun⟩ := ih (serve t q).2 hs₁ hp.2 (link.send c q).1
    exact ⟨s', c', hrel, by rw [Link.run, hex, Option.bind_some, hrun, Calls.run]⟩

/-- What a program comes to on the service, it comes to over the connection. -/
theorem Carries.leads (h : link.Carries rel serve ok) {s : S} {t : T} {p : Calls Q R α}
    {post : T → α → Prop} (hs : rel s t) (hp : p.Leads serve ok t post) (c : C) :
    ∃ s' t' c' a, rel s' t' ∧ post t' a ∧ link.run ⟨s, c, [], []⟩ p = some (⟨s', c', [], []⟩, a) := by
  obtain ⟨s', c', hrel, hrun⟩ := h.run hs hp.meets c
  exact ⟨s', _, c', _, hrel, hp.post, hrun⟩

/-- The same, where the states of the server are those of the service. -/
theorem Carries.run_eq {serve : S → Q → S × R} {ok : S → Q → Prop} (h : link.Carries Eq serve ok)
    {s : S} {p : Calls Q R α} (hp : p.Meets serve ok s) (c : C) : ∃ c',
      link.run ⟨s, c, [], []⟩ p = some (⟨(p.run serve s).1, c', [], []⟩, (p.run serve s).2) := by
  obtain ⟨s', c', rfl, hrun⟩ := h.run rfl hp c
  exact ⟨c', hrun⟩

/-! ### A service over a service -/

/-- The connection of a driver that makes each of its calls as one request of the service below. -/
def through {Q' R' : Type} (link : Link S C Q R A B) (lower : Q' → Q) (lift : Q' → R → R') :
    Link S C Q' R' A B where
  send c q := link.send c (lower q)
  turn := link.turn
  recv c q bytes := (link.recv c (lower q) bytes).map fun got => (lift q got.1, got.2)

/-- A driver that makes a service out of the one below makes it over the connection as well. -/
theorem Carries.through {Q' R' U : Type} {lower : Q' → Q} {lift : Q' → R → R'} {rel' : T → U → Prop}
    {serve' : U → Q' → U × R'} {ok' : U → Q' → Prop} (h : link.Carries rel serve ok)
    (hserve : ∀ t u q, rel' t u → ok' u q → ok t (lower q) ∧
      rel' (serve t (lower q)).1 (serve' u q).1 ∧ lift q (serve t (lower q)).2 = (serve' u q).2) :
    (link.through lower lift).Carries (fun s u => ∃ t, rel s t ∧ rel' t u) serve' ok' := by
  rintro s u c q ⟨t, hst, htu⟩ hq
  obtain ⟨hok, hrel', hlift⟩ := hserve t u q htu hq
  obtain ⟨s', reply, hturn, hrel, hrecv⟩ := h s t c (lower q) hst hok
  refine ⟨s', reply, hturn, ⟨_, hrel, hrel'⟩, ?_⟩
  show (link.recv (link.send c (lower q)).1 (lower q) reply).map _ = _
  rw [hrecv, Option.map_some, hlift]

end Link

end Usbip.Lib
