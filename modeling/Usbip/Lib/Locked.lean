import Usbip.Lib.Rpc
import Usbip.Lib.Run

/-! Threads that share one connection under a lock.  A thread has the lock from its request to the
reply, and the server may take its turn at any moment: what the threads get is what they would get
one after the other, in the order in which they took the lock. -/

namespace Usbip.Lib

/-- The calls of threads, with `ι` for the threads. -/
structure Locked (ι S C Q R A B : Type) where
  ends : Ends S C A B
  /-- the thread that has the lock, and its request -/
  holder : Option (ι × Q)
  /-- the requests so far -/
  asked : List (ι × Q)
  /-- the replies so far -/
  got : List (ι × Q × R)

inductive LockAct (ι Q : Type)
  /-- a thread takes the lock and sends a request -/
  | lock (i : ι) (q : Q)
  /-- the server takes a turn -/
  | turn
  /-- the thread that has the lock receives its reply and gives the lock back -/
  | unlock

variable {ι S T C Q R A B : Type}

def Locked.start (s : S) (c : C) : Locked ι S C Q R A B := ⟨⟨s, c, [], []⟩, none, [], []⟩

/-- The calls one after the other. -/
def serial (serve : T → Q → T × R) : T → List (ι × Q) → T × List (ι × Q × R)
  | t, [] => (t, [])
  | t, (i, q) :: rest =>
    let more := serial serve (serve t q).1 rest
    (more.1, (i, q, (serve t q).2) :: more.2)

theorem serial_concat (serve : T → Q → T × R) (t : T) (qs : List (ι × Q)) (i : ι) (q : Q) :
    serial serve t (qs ++ [(i, q)]) = ((serve (serial serve t qs).1 q).1,
      (serial serve t qs).2 ++ [(i, q, (serve (serial serve t qs).1 q).2)]) := by
  induction qs generalizing t with
  | nil => rfl
  | cons head rest ih =>
    simp only [List.cons_append, serial, ih (serve t head.2).1]

namespace Link

variable (link : Link S C Q R A B)

def act (s : Locked ι S C Q R A B) : LockAct ι Q → Option (Locked ι S C Q R A B)
  | .lock i q =>
    match s.holder with
    | some _ => none
    | none =>
      let sent := link.send s.ends.client q
      some { s with
        ends := { s.ends with client := sent.1, toServer := s.ends.toServer ++ sent.2 }
        holder := some (i, q)
        asked := s.asked ++ [(i, q)] }
  | .turn =>
    (link.turn s.ends.server s.ends.toServer).map fun served =>
      { s with
        ends := { s.ends with
          server := served.1
          toServer := served.2.2
          toClient := s.ends.toClient ++ served.2.1 } }
  | .unlock =>
    match s.holder with
    | none => none
    | some (i, q) =>
      (link.recv s.ends.client q s.ends.toClient).map fun got =>
        { s with
          ends := { s.ends with toClient := got.2 }
          holder := none
          got := s.got ++ [(i, q, got.1)] }

/-- Each end waits for something to come. -/
structure Waits : Prop where
  server : ∀ s, link.turn s [] = none
  client : ∀ c q, link.recv c q [] = none

variable (rel : S → T → Prop) (serve : T → Q → T × R) (ok : T → Q → Prop) (t₀ : T)

/-- Each request meets `ok` where it stands among the requests. -/
def Allows (s : Locked ι S C Q R A B) : LockAct ι Q → Prop
  | .lock _ q => ok (serial serve t₀ s.asked).1 q
  | .turn | .unlock => True

instance [∀ t q, Decidable (ok t q)] (s : Locked ι S C Q R A B) :
    ∀ a, Decidable (Allows serve ok t₀ s a)
  | .lock _ _ => inferInstanceAs (Decidable (ok _ _))
  | .turn | .unlock => .isTrue trivial

/-- No call is under way, and the replies are those of the calls one after the other. -/
structure Settled (s : Locked ι S C Q R A B) : Prop where
  free : s.holder = none
  server : rel s.ends.server (serial serve t₀ s.asked).1
  got : s.got = (serial serve t₀ s.asked).2
  toServer : s.ends.toServer = []
  toClient : s.ends.toClient = []

/-- A call under way, behind the requests `before`. -/
structure Called (s : Locked ι S C Q R A B) (before : List (ι × Q)) (i : ι) (q : Q) : Prop where
  holder : s.holder = some (i, q)
  asked : s.asked = before ++ [(i, q)]
  got : s.got = (serial serve t₀ before).2

/-- The server has not seen the request yet. -/
structure Sent (s : Locked ι S C Q R A B) (before : List (ι × Q)) (i : ι) (q : Q) (c : C) : Prop
    extends Called serve t₀ s before i q where
  server : rel s.ends.server (serial serve t₀ before).1
  meets : ok (serial serve t₀ before).1 q
  client : s.ends.client = (link.send c q).1
  toServer : s.ends.toServer = (link.send c q).2
  toClient : s.ends.toClient = []

/-- The reply is on its way. -/
structure Answered (s : Locked ι S C Q R A B) (before : List (ι × Q)) (i : ι) (q : Q) : Prop
    extends Called serve t₀ s before i q where
  server : rel s.ends.server (serial serve t₀ s.asked).1
  toServer : s.ends.toServer = []
  toClient : link.recv s.ends.client q s.ends.toClient =
    some ((serve (serial serve t₀ before).1 q).2, [])

/-- Where the calls of the threads can stand. -/
inductive Phase (s : Locked ι S C Q R A B) : Prop
  | settled (h : Settled rel serve t₀ s)
  | sent {before : List (ι × Q)} {i : ι} {q : Q} {c : C}
    (h : Sent link rel serve ok t₀ s before i q c)
  | answered {before : List (ι × Q)} {i : ι} {q : Q} (h : Answered link rel serve t₀ s before i q)

variable {link} {rel serve ok t₀} {s s' : Locked ι S C Q R A B}

theorem Settled.start {s₀ : S} (h : rel s₀ t₀) (c : C) :
    Settled rel serve t₀ (Locked.start s₀ c : Locked ι S C Q R A B) := ⟨rfl, h, rfl, rfl, rfl⟩

theorem Settled.act (h : Settled rel serve t₀ s) (hw : link.Waits) {a : LockAct ι Q}
    (ha : Allows serve ok t₀ s a) (hs : link.act s a = some s') : Phase link rel serve ok t₀ s' := by
  cases a with
  | lock i q =>
    rw [Link.act, h.free] at hs
    obtain rfl := Option.some.inj hs
    have hsent : s.ends.toServer ++ (link.send s.ends.client q).2 = (link.send s.ends.client q).2 := by
      rw [h.toServer, List.nil_append]
    exact .sent ⟨⟨rfl, rfl, h.got⟩, h.server, ha, rfl, hsent, h.toClient⟩
  | turn =>
    rw [Link.act, h.toServer, hw.server] at hs
    cases hs
  | unlock =>
    rw [Link.act, h.free] at hs
    cases hs

section

variable {before : List (ι × Q)} {i : ι} {q : Q} {c : C}

/-- The server takes its turn on a request. -/
theorem Sent.turn (h : Sent link rel serve ok t₀ s before i q c) (hc : link.Carries rel serve ok) :
    ∃ s', link.act s .turn = some s' ∧ s'.asked = s.asked ∧ s'.got = s.got ∧
      Answered link rel serve t₀ s' before i q := by
  obtain ⟨s₁, reply, hturn, hrel, hrecv⟩ := hc _ _ c q h.server h.meets
  have hact : link.act s .turn = some { s with
      ends := { s.ends with server := s₁, toServer := [], toClient := s.ends.toClient ++ reply } } := by
    rw [Link.act, h.toServer, hturn, Option.map_some]
  refine ⟨_, hact, rfl, rfl, ⟨h.holder, h.asked, h.got⟩, ?_, rfl, ?_⟩
  · show rel s₁ (serial serve t₀ s.asked).1
    rw [h.asked, serial_concat]
    exact hrel
  · show link.recv s.ends.client q (s.ends.toClient ++ reply) = _
    rw [h.client, h.toClient, List.nil_append]
    exact hrecv

/-- The thread that has the lock takes its reply. -/
theorem Answered.unlock (h : Answered link rel serve t₀ s before i q) :
    ∃ s', link.act s .unlock = some s' ∧ s'.asked = s.asked ∧ s.got <+: s'.got ∧
      Settled rel serve t₀ s' := by
  have hunlock : link.act s .unlock = some { s with
      ends := { s.ends with toClient := [] }
      holder := none
      got := s.got ++ [(i, q, (serve (serial serve t₀ before).1 q).2)] } := by
    rw [Link.act, h.holder]
    dsimp only
    rw [h.toClient, Option.map_some]
  refine ⟨_, hunlock, rfl, List.prefix_append .., rfl, h.server, ?_, h.toServer, rfl⟩
  show s.got ++ _ = (serial serve t₀ s.asked).2
  rw [h.asked, serial_concat, h.got]

/-- Nothing else happens to a request. -/
theorem Sent.act (h : Sent link rel serve ok t₀ s before i q c) (hw : link.Waits)
    {a : LockAct ι Q} (hs : link.act s a = some s') : a = .turn := by
  cases a with
  | lock j r =>
    rw [Link.act, h.holder] at hs
    cases hs
  | turn => rfl
  | unlock =>
    rw [Link.act, h.holder, h.toClient] at hs
    dsimp only at hs
    rw [hw.client] at hs
    cases hs

/-- Nothing else happens to a reply. -/
theorem Answered.act (h : Answered link rel serve t₀ s before i q) (hw : link.Waits)
    {a : LockAct ι Q} (hs : link.act s a = some s') : a = .unlock := by
  cases a with
  | lock j r =>
    rw [Link.act, h.holder] at hs
    cases hs
  | turn =>
    rw [Link.act, h.toServer, hw.server] at hs
    cases hs
  | unlock => rfl

end

theorem Phase.act (h : Phase link rel serve ok t₀ s) (hc : link.Carries rel serve ok)
    (hw : link.Waits) {a : LockAct ι Q} (ha : Allows serve ok t₀ s a)
    (hs : link.act s a = some s') : Phase link rel serve ok t₀ s' := by
  cases h with
  | settled h => exact h.act hw ha hs
  | sent h =>
    obtain rfl := h.act hw hs
    obtain ⟨s₁, hs₁, -, -, hnext⟩ := h.turn hc
    obtain rfl := Option.some.inj (hs₁.symm.trans hs)
    exact .answered hnext
  | answered h =>
    obtain rfl := h.act hw hs
    obtain ⟨s₁, hs₁, -, -, hnext⟩ := h.unlock
    obtain rfl := Option.some.inj (hs₁.symm.trans hs)
    exact .settled hnext

/-- What is under way comes to its end: the server takes its turn and the thread its reply, and no
other thread is needed for it. -/
theorem Phase.finish (h : Phase link rel serve ok t₀ s) (hc : link.Carries rel serve ok) :
    ∃ rest s', rest <:+ [.turn, .unlock] ∧ (s.holder = none → rest = []) ∧
      exec link.act s rest = some s' ∧ s'.asked = s.asked ∧ s.got <+: s'.got ∧
      Settled rel serve t₀ s' := by
  cases h with
  | settled h => exact ⟨[], s, List.nil_suffix, fun _ => rfl, rfl, rfl, List.prefix_rfl, h⟩
  | sent h =>
    obtain ⟨s₁, hs₁, hasked₁, hgot₁, h₁⟩ := h.turn hc
    obtain ⟨s', hs', hasked, hgot, hsettled⟩ := h₁.unlock
    refine ⟨[.turn, .unlock], s', List.suffix_rfl, fun hnone => ?_, ?_, hasked.trans hasked₁,
      hgot₁ ▸ hgot, hsettled⟩
    · exact nomatch h.holder.symm.trans hnone
    · rw [exec_cons, hs₁, Option.bind_some, exec_cons, hs']
      rfl
  | answered h =>
    obtain ⟨s', hs', hasked, hgot, hsettled⟩ := h.unlock
    refine ⟨[.unlock], s', List.suffix_cons .., fun hnone => ?_, ?_, hasked, hgot, hsettled⟩
    · exact nomatch h.holder.symm.trans hnone
    · rw [exec_cons, hs']
      rfl

/-- Whatever threads do on a connection, what is under way comes to its end by itself, and then the
replies are those of the calls one after the other in the order of the lock. -/
theorem Carries.locked (hc : link.Carries rel serve ok) (hw : link.Waits) {s₀ : S} (hs₀ : rel s₀ t₀)
    (c : C) {acts : List (LockAct ι Q)}
    (hallow : Guarded link.act (Allows serve ok t₀) (.start s₀ c) acts)
    (hrun : exec link.act (.start s₀ c) acts = some s) :
    ∃ rest s', rest <:+ [.turn, .unlock] ∧ (s.holder = none → rest = []) ∧
      exec link.act s rest = some s' ∧ s'.asked = s.asked ∧ s.got <+: s'.got ∧
      Settled rel serve t₀ s' := by
  have hphase : Phase link rel serve ok t₀ s := guarded_invariant
    (fun _ _ _ h ha hs => h.act hc hw ha hs) (.settled (.start hs₀ c)) hallow hrun
  exact hphase.finish hc

end Link

end Usbip.Lib
