import Usbip.Lib.Line
import Usbip.Serve.Late

/-! Isochronous pacing.  Each endpoint has a clock of deadlines; the completion of a URB waits for
its deadline on the list of its connection, from which the pacer takes the earliest one, an unlink
takes what it names, and which is emptied before the connection goes. -/

namespace Usbip

open Lib

/-- What `iso_deadline` reads of a device. `overshift` is what the machine makes of
`125u << (bint - 1)` where the shift is wider than the number and C leaves it open. -/
structure IsoTiming where
  speed : Nat
  interval : EpId → UInt8
  overshift : UInt8 → UInt32

def usbSpeedHigh : Nat := 2

namespace IsoTiming

def bint (k : IsoTiming) (e : EpId) : UInt8 := if k.interval e ≠ 0 then k.interval e else 1

def frameUs (k : IsoTiming) (e : EpId) : UInt64 :=
  if usbSpeedHigh ≤ k.speed then
    (if k.bint e ≤ 32 then 125 <<< (k.bint e - 1).toUInt32 else k.overshift (k.bint e)).toUInt64
  else (k.bint e).toUInt64 * 1000

/-- `iso_deadline`, from the deadline that the endpoint has reached. -/
def isoDeadline (k : IsoTiming) (e : EpId) (reached now : UInt64) (npkts : Nat) : UInt64 :=
  (if reached < now then now else reached) + k.frameUs e * npkts.toUInt64

end IsoTiming

/-- A device that paces, with its clocks.  Every serve thread reads and writes the clock of an
endpoint without a lock: `due` is the deadline that it has computed and not stored. `accepted` are
the completions handed to the pacer, in order, and `unlinked` those that an unlink has taken off a
list. -/
structure PaceTrace where
  trace : DevTrace
  now : UInt64
  reached : EpId → UInt64
  due : ConnId → Option UInt64
  accepted : List (ConnId × PacedRet)
  unlinked : List (ConnId × PacedRet)

inductive PaceAct
  /-- the clock goes on -/
  | tick (now : UInt64)
  /-- the serve thread of `c` has read the clock of the endpoint -/
  | load (c : ConnId)
  | dev (a : DevAct)
  deriving DecidableEq, Repr

/-- The iso URB that the serve thread of a connection has taken, and its endpoint. -/
def DevState.filling (dev : Plugged) (s : DevState) (c : ConnId) : Option (Submit × EpId) :=
  match s.conns[c]?.map Conn.serving with
  | some (.iso sub) => (dev.route sub.urb.ep sub.urb.direction).map fun e => (sub, e)
  | _ => none

/-- The entries that the next step of the serve thread takes off the list. -/
def Conn.unlinks (conn : Conn) : List PacedRet :=
  match conn.serving with
  | .unlinking _ unlinkSeqnum [] => conn.paceHead.filter fun entry => entry.seqnum = unlinkSeqnum
  | _ => []

/-- The entries that a step takes off a list for good. -/
def DevState.struckBy (s : DevState) : DevAct → List (ConnId × PacedRet)
  | .conn c .serve => ((s.conns[c]?.map Conn.unlinks).getD []).map fun entry => (c, entry)
  | _ => []

/-- The pacer reads the clock. -/
def DevAct.timed (now : UInt64) : DevAct → DevAct
  | .conn c (.pacer _) => .conn c (.pacer now)
  | a => a

namespace PaceTrace

def new (dev : Plugged) (now : UInt64) : PaceTrace :=
  ⟨.new dev, now, fun _ => 0, fun _ => none, [], []⟩

/-- The steps of the device, with the clock that `iso_deadline` and the pacer read. `iso_deadline`
is two steps: what another thread stores between them is lost. -/
def step (k : IsoTiming) (dev : Plugged) (t : PaceTrace) : PaceAct → Option PaceTrace
  | .tick now => if t.now ≤ now then some { t with now } else none
  | .load c =>
    match t.trace.dev.filling dev c, t.due c with
    | some (sub, e), none =>
      let deadline := k.isoDeadline e (t.reached e) t.now sub.numberOfPackets.toNat
      some { t with due := fun c' => if c' = c then some deadline else t.due c' }
    | _, _ => none
  | .dev (.conn c (.fill lens data _)) =>
    match t.trace.dev.filling dev c, t.due c with
    | some (sub, e), some deadline =>
      (t.trace.step dev (.conn c (.fill lens data deadline))).map fun trace =>
        { t with
          trace
          reached := fun e' => if e' = e then deadline else t.reached e'
          due := fun c' => if c' = c then none else t.due c'
          accepted := t.accepted ++ [(c, .of sub lens data deadline)] }
    | _, _ => none
  | .dev a =>
    (t.trace.step dev (a.timed t.now)).map fun trace =>
      { t with trace, unlinked := t.unlinked ++ t.trace.dev.struckBy a }

end PaceTrace

/-- The completion is one of endpoint `e`. -/
def PacedRet.isOn (dev : Plugged) (e : EpId) (entry : PacedRet) : Bool :=
  dev.route entry.ep entry.direction = some e

/-- What waits on a connection, in the order in which it came. -/
def Conn.waiting (conn : Conn) : List PacedRet := conn.sending.toList ++ conn.paceHead.reverse

def DevEvent.isoSent (c : ConnId) : DevEvent → Option PacedRet
  | .retIso c' entry => if c' = c then some entry else none
  | _ => none

/-- Of what belongs to connections, what belongs to this one. -/
def ofConn (c : ConnId) (l : List (ConnId × PacedRet)) : List PacedRet :=
  (l.filter fun a => a.1 = c).map Prod.snd

def DevState.waiting (s : DevState) (c : ConnId) : List PacedRet :=
  ((s.conns[c]?).map Conn.waiting).getD []

/-- The completions of one connection. -/
def PaceTrace.line (t : PaceTrace) (c : ConnId) : Line PacedRet where
  came := ofConn c t.accepted
  served := t.trace.log.filterMap (DevEvent.isoSent c)
  waiting := t.trace.dev.waiting c
  struck := ofConn c t.unlinked

/-- The completions of endpoint `e` on connection `c` are sent in order and once. -/
structure PaceTrace.InOrder (k : IsoTiming) (dev : Plugged) (t : PaceTrace) (c : ConnId)
    (e : EpId) : Prop where
  fair : (t.line c).Fair (fun a b => a.deadline < b.deadline) (PacedRet.isOn dev e)
  /-- The pacer does not sleep over what is due. -/
  prompt : ∀ conn, t.trace.dev.conns[c]? = some conn →
    conn.sending.isSome ∨ (∃ entry ∈ conn.paceHead, entry.deadline ≤ t.now) →
      (t.step k dev (.dev (.conn c (.pacer 0)))).isSome
  /-- The pacer that is stopped can send all that waits, and the connection goes only then. -/
  drains : ∀ conn, t.trace.dev.conns[c]? = some conn → conn.serving = .closing →
    ∃ n t', exec (step k dev) t (List.replicate n (.dev (.conn c (.pacer 0)))) = some t' ∧
      (t'.line c).waiting = [] ∧ t'.unlinked = t.unlinked ∧ t'.accepted = t.accepted ∧
        (t'.step k dev (.dev (.conn c .serve))).isSome
  stopped : ∀ conn, t.trace.dev.conns[c]? = some conn → conn.serving = .returned →
    (t.line c).waiting = []

/-- The deadline that a serve thread computes is a number that C defines and that fits in 64 bits,
and no other thread has read the clock of the endpoint and not yet stored it. -/
def PaceTrace.Fits (k : IsoTiming) (dev : Plugged) (t : PaceTrace) : PaceAct → Prop
  | .load c =>
    ∀ filled ∈ t.trace.dev.filling dev c,
      ((usbSpeedHigh ≤ k.speed → k.bint filled.2 ≤ 32) ∧
        max (t.reached filled.2).toNat t.now.toNat +
          (k.frameUs filled.2).toNat * filled.1.numberOfPackets.toNat < 2 ^ 64) ∧
        ∀ c' < t.trace.dev.conns.length, (t.due c').isSome →
          ∀ other ∈ t.trace.dev.filling dev c', other.2 ≠ filled.2
  | _ => True

/-! ### The pacer's choice -/

section pop

variable {l rest : List PacedRet} {entry : PacedRet}

theorem popEarliest_eq_none : popEarliest l = none ↔ l = [] := by
  constructor
  · intro h
    cases l with
    | nil => rfl
    | cons x l =>
      rw [popEarliest] at h
      repeat' split at h
      all_goals cases h
  · rintro rfl
    rfl

theorem popEarliest_le (h : popEarliest l = some (entry, rest)) :
    ∀ other ∈ l, entry.deadline ≤ other.deadline := by
  induction l generalizing entry rest with
  | nil => cases h
  | cons x l ih =>
    rw [popEarliest] at h
    split at h
    · rename_i first others hpop
      have hfirst := ih hpop
      split at h <;> rename_i hlt <;> cases h
      · exact List.forall_mem_cons.mpr ⟨UInt64.le_of_lt hlt, hfirst⟩
      · have hle := UInt64.not_lt.mp hlt
        exact List.forall_mem_cons.mpr
          ⟨UInt64.le_refl _, fun other hother => UInt64.le_trans hle (hfirst other hother)⟩
    · rename_i hpop
      cases h
      have hnil := popEarliest_eq_none.mp hpop
      subst hnil
      exact List.forall_mem_singleton.mpr (UInt64.le_refl _)

/-- From the entries whose deadlines increase, the one that came first is taken. -/
theorem popEarliest_filter (h : popEarliest l = some (entry, rest)) {p : PacedRet → Bool}
    (hp : (l.filter p).Pairwise fun a b => b.deadline < a.deadline) :
    l.filter p = rest.filter p ++ if p entry then [entry] else [] := by
  induction l generalizing entry rest with
  | nil => cases h
  | cons x l ih =>
    have hle := popEarliest_le h
    rw [popEarliest] at h
    split at h
    · rename_i first others hpop
      have hrest : (l.filter p).Pairwise fun a b => b.deadline < a.deadline :=
        hp.sublist ((List.sublist_cons_self x l).filter p)
      split at h <;> cases h
      · rw [List.filter_cons, List.filter_cons, ih hpop hrest]
        split <;> rfl
      · -- an entry behind `x` would be earlier
        by_cases hx : p x
        · have hnil : l.filter p = [] := by
            rw [List.eq_nil_iff_forall_not_mem]
            intro y hy
            rw [List.filter_cons, if_pos hx, List.pairwise_cons] at hp
            have hlt := hp.1 y hy
            exact absurd hlt (UInt64.not_lt.mpr
              (hle y (List.mem_cons_of_mem _ (List.mem_of_mem_filter hy))))
          rw [List.filter_cons, if_pos hx, if_pos hx, hnil]
          rfl
        · rw [List.filter_cons, if_neg hx, if_neg hx, List.append_nil]
    · rename_i hpop
      cases h
      rw [popEarliest_eq_none.mp hpop, List.filter_cons]
      split <;> rfl

end pop

/-! ### Deadlines -/

namespace IsoTiming

variable {k : IsoTiming} {e : EpId}

theorem bint_pos (k : IsoTiming) (e : EpId) : k.bint e ≠ 0 := by
  unfold bint
  split
  · assumption
  · decide

/-- An interval that C defines takes some time. -/
theorem frameUs_pos (h : usbSpeedHigh ≤ k.speed → k.bint e ≤ 32) : 0 < (k.frameUs e).toNat := by
  have hne := k.bint_pos e
  rw [frameUs]
  generalize k.bint e = bint at hne h
  have hpos : 0 < bint.toNat := by
    refine Nat.pos_of_ne_zero fun h0 => hne ?_
    exact UInt8.toNat_inj.mp h0
  split
  · rename_i hhigh
    have hle := h hhigh
    rw [if_pos hle]
    have hshift : ∀ n < 33, 0 < n →
        0 < ((125 : UInt32) <<< ((n.toUInt8 - 1 : UInt8)).toUInt32).toUInt64.toNat := by decide
    have := hshift bint.toNat (Nat.lt_succ_of_le (UInt8.le_iff_toNat_le.mp hle)) hpos
    rwa [show bint.toNat.toUInt8 = bint from UInt8.ofNat_toNat] at this
  · have hlt := UInt8.toNat_lt bint
    have hthousand : (1000 : UInt64).toNat = 1000 := rfl
    rw [UInt64.toNat_mul, UInt8.toNat_toUInt64, hthousand, Nat.mod_eq_of_lt (by omega)]
    omega

/-- Where the sum fits, the deadlines of an endpoint go on. -/
theorem reached_lt_isoDeadline {reached now : UInt64} {npkts : Nat}
    (hdef : usbSpeedHigh ≤ k.speed → k.bint e ≤ 32) (hpkts : 0 < npkts)
    (hfit : max reached.toNat now.toNat + (k.frameUs e).toNat * npkts < 2 ^ 64) :
    reached < k.isoDeadline e reached now npkts := by
  have hframe := frameUs_pos hdef
  have hmul : 1 ≤ (k.frameUs e).toNat * npkts := Nat.mul_pos hframe hpkts
  have hle : npkts ≤ (k.frameUs e).toNat * npkts := Nat.le_mul_of_pos_left _ hframe
  have hbase : (if reached < now then now else reached).toNat = max reached.toNat now.toNat := by
    split
    · rename_i hlt
      have := UInt64.lt_iff_toNat_lt.mp hlt
      omega
    · rename_i hlt
      have := UInt64.le_iff_toNat_le.mp (UInt64.not_lt.mp hlt)
      omega
  have hnpkts : npkts.toUInt64.toNat = npkts :=
    UInt64.toNat_ofNat_of_lt' (show npkts < 2 ^ 64 by omega)
  rw [UInt64.lt_iff_toNat_lt, isoDeadline, UInt64.toNat_add, hbase, UInt64.toNat_mul, hnpkts,
    Nat.mod_eq_of_lt (a := (k.frameUs e).toNat * npkts) (by omega), Nat.mod_eq_of_lt hfit]
  omega

end IsoTiming

/-! ### One connection -/

/-- What holds of every connection: an iso URB has packets, a connection that closes has told its
pacer, and one that is gone has nothing waiting. -/
structure Conn.Pacing (conn : Conn) : Prop where
  packets : ∀ sub, conn.serving = .iso sub → 0 < sub.numberOfPackets
  told : conn.serving = .closing → conn.paceStop = true
  gone : conn.serving = .returned → conn.waiting = []

/-- What a step does to the completions that wait. -/
inductive PacedStep (dev : Plugged) (eps : EpId → EpState) (c : ConnId) (conn : Conn) :
    ConnAct → Conn → List DevEvent → Prop
  | quiet {a : ConnAct} {conn' : Conn} {sent : List DevEvent} (same : conn'.waiting = conn.waiting)
    (none_sent : sent.filterMap (DevEvent.isoSent c) = [])
    (no_fill : ∀ lens data deadline, a ≠ .fill lens data deadline)
    (none_unlinked : a = .serve → ∀ n n', conn.serving ≠ .unlinking n n' []) :
    PacedStep dev eps c conn a conn' sent
  | filled {sub : Submit} {conn' : Conn} (lens : List UInt32) (data : List UInt8)
    (deadline : UInt64) (in_iso : conn.serving = .iso sub)
    (added : conn'.waiting = conn.waiting ++ [.of sub lens data deadline]) :
    PacedStep dev eps c conn (.fill lens data deadline) conn' []
  | unlinked {n unlinkSeqnum : UInt32} {conn' : Conn}
    (unlinking : conn.serving = .unlinking n unlinkSeqnum [])
    (left : conn'.waiting = conn.sending.toList ++
      (conn.paceHead.filter fun entry => entry.seqnum ≠ unlinkSeqnum).reverse) :
    PacedStep dev eps c conn .serve conn' []
  | taken {entry : PacedRet} {rest : List PacedRet} {conn' : Conn} (now : UInt64)
    (none_sending : conn.sending = none) (popped : popEarliest conn.paceHead = some (entry, rest))
    (left : conn'.waiting = entry :: rest.reverse) : PacedStep dev eps c conn (.pacer now) conn' []
  | sent {entry : PacedRet} {conn' : Conn} (now : UInt64)
    (first : conn.waiting = entry :: conn'.waiting) :
    PacedStep dev eps c conn (.pacer now) conn' [.retIso c entry]

section conn

variable {dev : Plugged} {eps : EpId → EpState} {c : ConnId} {conn conn' : Conn} {a : ConnAct}
  {sect : Section} {sent : List DevEvent}

theorem Conn.Pacing.new : Conn.new.Pacing where
  packets _ h := nomatch h
  told h := nomatch h
  gone h := nomatch h

theorem ConnStep.paced (h : ConnStep dev eps c conn a conn' sect sent) (hpaced : dev.isoPaced = true) :
    PacedStep dev eps c conn a conn' sent := by
  cases h with
  | pace lens data deadline in_iso =>
    refine .filled lens data deadline in_iso ?_
    simp [Conn.waiting]
  | sendIso lens data deadline in_iso unpaced => exact absurd (hpaced.symm.trans unpaced) (by decide)
  | unlinkPaced unlinking => exact .unlinked unlinking rfl
  | @pacerSend entry now in_hand =>
    refine .sent now ?_
    rw [Conn.waiting, in_hand]
    rfl
  | @pacerPop entry rest now none_sending popped => exact .taken now none_sending popped rfl
  | submit | unlink | disconnect | handler =>
    exact .quiet rfl rfl (fun _ _ _ h => nomatch h) fun h => nomatch h
  | resume hs | control hs | clear hs | cleared hs | stalled hs | answer hs | skipSlot hs
  | unlinkSlot hs | replyUnlink hs | finish hs =>
    exact .quiet rfl rfl (fun _ _ _ h => nomatch h) fun _ _ _ hu => nomatch hs.symm.trans hu

theorem Conn.dispatch_iso {sub sub' : Submit} (h : (Conn.dispatch dev eps sub).1 = .iso sub') :
    0 < sub'.numberOfPackets := by
  unfold Conn.dispatch at h
  repeat' split at h
  all_goals cases h
  rename_i hiso _
  exact hiso.2

theorem ConnStep.pacing (h : ConnStep dev eps c conn a conn' sect sent) (hi : conn.Pacing) :
    conn'.Pacing := by
  cases h with
  | submit sub idle =>
    refine ⟨fun sub' => Conn.dispatch_iso, fun hs => ?_, fun hs => ?_⟩
    all_goals
      unfold Conn.dispatch at hs
      repeat' split at hs
      all_goals cases hs
  | @control sub request =>
    refine ⟨fun _ hs => ?_, fun hs => ?_, fun hs => ?_⟩
    all_goals
      cases request <;> simp only [Conn.handleControl, Serving.ack] at hs <;> (try split at hs) <;>
        cases hs
  | disconnect =>
    refine ⟨fun _ hs => ?_, fun _ => rfl, fun hs => ?_⟩
    all_goals cases hs
  | finish closing none_paced none_sending =>
    refine ⟨fun _ hs => ?_, fun hs => ?_, fun _ => ?_⟩
    · cases hs
    · cases hs
    · rw [Conn.waiting, none_paced, none_sending]
      rfl
  | pacerSend now in_hand =>
    refine ⟨hi.packets, hi.told, fun hs => ?_⟩
    have hgone := hi.gone hs
    rw [Conn.waiting, in_hand] at hgone
    cases hgone
  | pacerPop now none_sending popped =>
    refine ⟨hi.packets, hi.told, fun hs => ?_⟩
    have hgone := hi.gone hs
    rw [Conn.waiting, none_sending, Option.toList_none, List.nil_append,
      List.reverse_eq_nil_iff] at hgone
    rw [hgone] at popped
    cases popped
  | unlink | resume | clear | cleared | stalled | answer | skipSlot | unlinkSlot | unlinkPaced |
    replyUnlink | handler | pace | sendIso =>
    refine ⟨fun _ hs => ?_, fun hs => ?_, fun hs => ?_⟩
    all_goals cases hs

theorem Conn.unlinks_eq_nil (h : ∀ n n', conn.serving ≠ .unlinking n n' []) :
    conn.unlinks = [] := by
  unfold Conn.unlinks
  split
  · rename_i n n' hs
    exact absurd hs (h n n')
  · rfl

/-- What a step makes of the completions of one endpoint, where none is added. `struck` is what the
step takes off the list for good. -/
theorem PacedStep.fair (h : PacedStep dev eps c conn a conn' sent)
    (no_fill : ∀ lens data deadline, a ≠ .fill lens data deadline) {e : EpId}
    {line : Line PacedRet} {struck : List PacedRet}
    (hfair : line.Fair (fun a b => a.deadline < b.deadline) (PacedRet.isOn dev e))
    (hwaiting : line.waiting = conn.waiting) (hserve : a = .serve → struck = conn.unlinks)
    (hother : a ≠ .serve → struck = []) :
    Line.Fair
      { line with
        served := line.served ++ sent.filterMap (DevEvent.isoSent c)
        waiting := conn'.waiting
        struck := line.struck ++ struck }
      (fun a b => a.deadline < b.deadline) (PacedRet.isOn dev e) := by
  cases h with
  | quiet same none_sent _ none_unlinked =>
    have hnone : struck = [] := by
      by_cases ha : a = .serve
      · exact (hserve ha).trans (Conn.unlinks_eq_nil (none_unlinked ha))
      · exact hother ha
    rw [none_sent, same, ← hwaiting, hnone, List.append_nil, List.append_nil]
    exact hfair
  | filled lens data deadline => exact absurd rfl (no_fill lens data deadline)
  | @unlinked n unlinkSeqnum _ unlinking left =>
    have hstruck : struck = conn.paceHead.filter fun entry => entry.seqnum = unlinkSeqnum := by
      rw [hserve rfl, Conn.unlinks, unlinking]
    rw [hstruck, left, List.filterMap_nil, List.append_nil]
    refine hfair.strike ?_ ?_
    · rw [hwaiting]
      exact (List.filter_sublist.reverse).append_left _
    · rw [hwaiting, Conn.waiting, List.append_assoc]
      refine List.Perm.append_left _ ?_
      refine (List.reverse_perm _).trans ?_
      refine (List.filter_append_perm (fun entry => entry.seqnum ≠ unlinkSeqnum)
        conn.paceHead).symm.trans ?_
      refine List.Perm.append (List.reverse_perm _).symm ?_
      simp
  | @taken entry rest _ now none_sending popped left =>
    have hwait : line.waiting = conn.paceHead.reverse := by
      rw [hwaiting, Conn.waiting, none_sending]
      rfl
    rw [left, hother (by simp)]
    simp only [List.filterMap_nil, List.append_nil]
    refine hfair.reorder ?_ ?_
    · have hinc := hfair.waiting_increasing
      rw [hwait, List.filter_reverse, List.pairwise_reverse] at hinc
      rw [hwait, List.filter_cons, List.filter_reverse, List.filter_reverse,
        popEarliest_filter popped hinc, List.reverse_append]
      split <;> rfl
    · rw [hwait]
      exact ((List.reverse_perm rest).cons entry).trans
        ((popEarliest_perm popped).symm.trans (List.reverse_perm _).symm)
  | @sent entry _ now first =>
    have hsent : [DevEvent.retIso c entry].filterMap (DevEvent.isoSent c) = [entry] :=
      List.filterMap_cons_some (if_pos rfl)
    rw [hsent, hother (by simp), List.append_nil]
    exact hfair.serve (hwaiting.trans first)

end conn

/-! ### The device -/

section device

variable {dev : Plugged} {s s' : DevState} {a : DevAct} {events : List DevEvent} {c : ConnId}

theorem ConnStep.isoSent_other {eps : EpId → EpState} {c' : ConnId} {conn conn' : Conn}
    {b : ConnAct} {sect : Section} {sent : List DevEvent}
    (h : ConnStep dev eps c' conn b conn' sect sent) (hne : c ≠ c') :
    sent.filterMap (DevEvent.isoSent c) = [] := by
  cases h with
  | sendIso | pacerSend => exact List.filterMap_cons_none (if_neg hne.symm)
  | _ => rfl

theorem isoSent_ep (e : EpId) (evs : List EpEvent) :
    (evs.map (DevEvent.ep e)).filterMap (DevEvent.isoSent c) = [] := by
  rw [List.filterMap_map]
  exact List.filterMap_eq_nil_iff.mpr fun _ _ => rfl

/-- A device step as the line of one connection sees it. -/
inductive SeenStep (dev : Plugged) (s : DevState) (c : ConnId) :
    DevAct → DevState → List DevEvent → Prop
  | aside {a : DevAct} {s' : DevState} {events : List DevEvent}
    (elsewhere : ∀ b, a ≠ .conn c b) (same : s'.waiting c = s.waiting c)
    (none_sent : events.filterMap (DevEvent.isoSent c) = []) : SeenStep dev s c a s' events
  | conn {b : ConnAct} {conn conn' : Conn} {sent : List DevEvent} {s' : DevState}
    {events : List DevEvent} (found : s.conns[c]? = some conn)
    (becomes : s'.waiting c = conn'.waiting)
    (sent_eq : events.filterMap (DevEvent.isoSent c) = sent.filterMap (DevEvent.isoSent c))
    (step : PacedStep dev s.eps c conn b conn' sent) : SeenStep dev s c (.conn c b) s' events

theorem DevStep.seen (hs : DevStep dev s a s' events) (hpaced : dev.isoPaced = true) (c : ConnId) :
    SeenStep dev s c a s' events := by
  cases hs with
  | connect =>
    refine .aside (fun _ h => nomatch h) ?_ rfl
    rw [DevState.waiting, DevState.waiting]
    rcases Nat.lt_trichotomy c s.conns.length with hlt | rfl | hgt
    · rw [List.getElem?_append_left hlt]
    · rw [List.getElem?_concat_length, List.getElem?_eq_none (Nat.le_refl _)]
      rfl
    · rw [List.getElem?_eq_none (by rw [List.length_append, List.length_singleton]; omega),
        List.getElem?_eq_none (by omega)]
  | @conn c' b conn conn' sent found step =>
    by_cases hc : c = c'
    · subst hc
      refine .conn found ?_ rfl (step.paced hpaced)
      rw [DevState.waiting, DevState.setConn_conns found, if_pos rfl]
      rfl
    · refine .aside (fun b h => ?_) ?_ (step.isoSent_other hc)
      · cases h
        exact hc rfl
      · rw [DevState.waiting, DevState.setConn_conns found, if_neg hc]
        rfl
  | @connEp c' b conn conn' sent e x ep evs found step sect =>
    have hsent : ∀ l : List DevEvent, ((evs.map (DevEvent.ep e)) ++ l).filterMap (DevEvent.isoSent c) =
        l.filterMap (DevEvent.isoSent c) := fun l => by
      rw [List.filterMap_append, isoSent_ep, List.nil_append]
    by_cases hc : c = c'
    · subst hc
      refine .conn found ?_ (hsent _) (step.paced hpaced)
      rw [DevState.waiting, DevState.setEp_conns, DevState.setConn_conns found, if_pos rfl]
      rfl
    · refine .aside (fun b h => ?_) ?_ ((hsent _).trans (step.isoSent_other hc))
      · cases h
        exact hc rfl
      · rw [DevState.waiting, DevState.setEp_conns, DevState.setConn_conns found, if_neg hc]
        rfl
  | app => exact .aside (fun _ h => nomatch h) rfl (isoSent_ep _ _)

/-- Every connection keeps what `Conn.Pacing` says. -/
theorem DevStep.pacing (hs : DevStep dev s a s' events)
    (h : ∀ (c : ConnId) (conn : Conn), s.conns[c]? = some conn → conn.Pacing) (c : ConnId)
    (conn' : Conn) (hfound : s'.conns[c]? = some conn') : conn'.Pacing := by
  rcases DevState.connStep_of_devStep hs hfound with rfl | hold | ⟨conn, b, sect, sent, hold, -,
    step, -⟩
  · exact .new
  · exact h c conn' hold
  · exact step.pacing (h c conn hold)

end device

/-! ### Runs -/

namespace PaceTrace

variable {k : IsoTiming} {dev : Plugged} {t t' : PaceTrace}

/-- What a step does: the clock goes on, a deadline is computed, a completion is handed to the
pacer, or anything else. -/
inductive PaceStep (k : IsoTiming) (dev : Plugged) (t : PaceTrace) : PaceAct → PaceTrace → Prop
  | tick {now : UInt64} (later : t.now ≤ now) : PaceStep k dev t (.tick now) { t with now }
  | load {c : ConnId} {deadline : UInt64} {sub : Submit} {e : EpId}
    (filling : t.trace.dev.filling dev c = some (sub, e))
    (deadline_eq :
      k.isoDeadline e (t.reached e) t.now sub.numberOfPackets.toNat = deadline) :
    PaceStep k dev t (.load c)
      { t with due := fun c' => if c' = c then some deadline else t.due c' }
  | fill {c : ConnId} {lens : List UInt32} {data : List UInt8} {given deadline : UInt64}
    {sub : Submit} {e : EpId} {trace : DevTrace} (filling : t.trace.dev.filling dev c = some (sub, e))
    (due : t.due c = some deadline)
    (step : t.trace.step dev (.conn c (.fill lens data deadline)) = some trace) :
    PaceStep k dev t (.dev (.conn c (.fill lens data given)))
      { t with
        trace
        reached := fun e' => if e' = e then deadline else t.reached e'
        due := fun c' => if c' = c then none else t.due c'
        accepted := t.accepted ++ [(c, .of sub lens data deadline)] }
  | other {a : DevAct} {trace : DevTrace}
    (no_fill : ∀ c lens data deadline, a ≠ .conn c (.fill lens data deadline))
    (step : t.trace.step dev (a.timed t.now) = some trace) :
    PaceStep k dev t (.dev a) { t with trace, unlinked := t.unlinked ++ t.trace.dev.struckBy a }

theorem step_step {act : PaceAct} (h : t.step k dev act = some t') : PaceStep k dev t act t' := by
  unfold step at h
  split at h
  · split at h <;> cases h
    rename_i hle
    exact .tick hle
  · split at h <;> cases h
    rename_i hfilling _
    exact .load hfilling rfl
  · split at h
    · rename_i hfilling hdue
      obtain ⟨trace, htrace, rfl⟩ := Option.map_eq_some_iff.mp h
      exact .fill hfilling hdue htrace
    · cases h
  · rename_i a hno
    obtain ⟨trace, htrace, rfl⟩ := Option.map_eq_some_iff.mp h
    exact .other (fun c lens data deadline heq => hno c lens data deadline heq) htrace

/-- A deadline that is not stored is later than the clock of the endpoint that its thread fills,
and one thread alone has such a deadline. -/
structure Alone (dev : Plugged) (s : DevState) (reached : EpId → UInt64)
    (due : ConnId → Option UInt64) : Prop where
  later : ∀ c deadline, due c = some deadline →
    ∃ sub e, s.filling dev c = some (sub, e) ∧ reached e < deadline
  one : ∀ c c' sub sub' e, (due c).isSome → (due c').isSome → s.filling dev c = some (sub, e) →
    s.filling dev c' = some (sub', e) → c = c'

/-- What every run keeps. -/
structure Kept (dev : Plugged) (t : PaceTrace) : Prop where
  pacing : ∀ (c : ConnId) (conn : Conn), t.trace.dev.conns[c]? = some conn → conn.Pacing
  alone : Alone dev t.trace.dev t.reached t.due
  reached : ∀ c e, ∀ a ∈ (t.line c).came, a.isOn dev e → a.deadline ≤ t.reached e
  fair : ∀ c e, (t.line c).Fair (fun a b => a.deadline < b.deadline) (PacedRet.isOn dev e)

theorem Kept.new (now : UInt64) : (new dev now).Kept dev where
  pacing _ _ h := nomatch h
  alone := ⟨fun _ _ h => (by cases h), fun _ _ _ _ _ h => (by cases h)⟩
  reached _ _ _ h := nomatch h
  fair _ _ := .empty

theorem ofConn_append (c : ConnId) (l m : List (ConnId × PacedRet)) :
    ofConn c (l ++ m) = ofConn c l ++ ofConn c m := by
  rw [ofConn, List.filter_append, List.map_append]
  rfl

theorem ofConn_pairs (c c' : ConnId) (l : List PacedRet) :
    ofConn c (l.map fun entry => (c', entry)) = if c' = c then l else [] := by
  induction l with
  | nil => split <;> rfl
  | cons a l ih =>
    rw [List.map_cons, ofConn, List.filter_cons]
    by_cases hc : c' = c
    · rw [if_pos hc] at ih ⊢
      simp only [hc, decide_true, if_true, List.map_cons, List.cons.injEq, true_and]
      exact hc ▸ ih
    · rw [if_neg hc] at ih ⊢
      rw [if_neg (by simpa using hc)]
      exact ih

/-- What a step of another kind strikes off the line of a connection. -/
theorem ofConn_struckBy (s : DevState) (c : ConnId) {a : DevAct}
    (h : ∀ conn, s.conns[c]? = some conn → a = .conn c .serve → conn.unlinks = []) :
    ofConn c (s.struckBy a) = [] := by
  unfold DevState.struckBy
  split
  · rename_i c'
    rw [ofConn_pairs]
    split
    · rename_i hc
      subst hc
      cases hfound : s.conns[c']? with
      | none => rfl
      | some conn => exact h conn hfound rfl
    · rfl
  · rfl

theorem timed_fill {now : UInt64} {a : DevAct} {c : ConnId} {lens : List UInt32} {data : List UInt8}
    {deadline : UInt64} (h : a.timed now = .conn c (.fill lens data deadline)) :
    a = .conn c (.fill lens data deadline) := by
  unfold DevAct.timed at h
  split at h
  · cases h
  · exact h

theorem timed_serve {now : UInt64} {a : DevAct} {c : ConnId} (h : a = .conn c .serve) :
    a.timed now = .conn c .serve := by
  subst h
  rfl

theorem timed_eq_serve {now : UInt64} {a : DevAct} {c : ConnId}
    (h : a.timed now = .conn c .serve) : a = .conn c .serve := by
  unfold DevAct.timed at h
  split at h
  · cases h
  · exact h

theorem filling_some {s : DevState} {c : ConnId} {sub : Submit} {e : EpId}
    (h : s.filling dev c = some (sub, e)) : ∃ conn, s.conns[c]? = some conn ∧
      conn.serving = .iso sub ∧ dev.route sub.urb.ep sub.urb.direction = some e := by
  unfold DevState.filling at h
  split at h
  · rename_i hs
    obtain ⟨conn, hfound, hserving⟩ := Option.map_eq_some_iff.mp hs
    obtain ⟨e', hroute, heq⟩ := Option.map_eq_some_iff.mp h
    cases heq
    exact ⟨conn, hfound, hserving, hroute⟩
  · cases h

theorem filling_congr {s s' : DevState} {c : ConnId}
    (h : s'.conns[c]?.map Conn.serving = s.conns[c]?.map Conn.serving) :
    s'.filling dev c = s.filling dev c := by
  rw [DevState.filling, DevState.filling, h]

/-- A serve thread leaves the URB that it fills only by handing it on. -/
theorem filling_kept {s s' : DevState} {a : DevAct} {events : List DevEvent} {c : ConnId}
    {filled : Submit × EpId} (hs : DevStep dev s a s' events) (h : s.filling dev c = some filled)
    (no_fill : ∀ lens data deadline, a ≠ .conn c (.fill lens data deadline)) :
    s'.filling dev c = some filled := by
  obtain ⟨sub, e⟩ := filled
  obtain ⟨conn, found, in_iso, -⟩ := filling_some h
  have hserving : ∀ {b conn' sect sent}, ConnStep dev s.eps c conn b conn' sect sent →
      a = .conn c b → conn'.serving = conn.serving := by
    intro b conn' sect sent step ha
    cases step with
    | pace | sendIso => exact absurd ha (no_fill _ _ _)
    | pacerSend | pacerPop => rfl
    | submit _ hb | unlink _ _ hb | disconnect hb | resume hb | control hb | clear hb | cleared hb
    | stalled hb | answer hb | skipSlot hb | unlinkSlot hb | unlinkPaced hb | replyUnlink hb
    | finish hb | handler _ _ _ hb => exact nomatch in_iso.symm.trans hb
  refine (filling_congr ?_).trans h
  cases hs with
  | connect =>
    rw [List.getElem?_append_left (List.getElem?_eq_some_iff.mp found).1]
  | @conn c' b conn₁ conn' sent found₁ step =>
    rw [DevState.setConn_conns found₁]
    split
    · rename_i hc
      subst hc
      obtain rfl : conn = conn₁ := Option.some.inj (found.symm.trans found₁)
      rw [found]
      exact congrArg some (hserving step rfl)
    · rfl
  | @connEp c' b conn₁ conn' sent e x ep evs found₁ step sect =>
    rw [DevState.setEp_conns, DevState.setConn_conns found₁]
    split
    · rename_i hc
      subst hc
      obtain rfl : conn = conn₁ := Option.some.inj (found.symm.trans found₁)
      rw [found]
      exact congrArg some (hserving step rfl)
    · rfl
  | app => rfl

section alone

variable {s s' : DevState} {reached : EpId → UInt64} {due : ConnId → Option UInt64} {c : ConnId}
  {sub : Submit} {e : EpId} {deadline : UInt64}

/-- A serve thread that has read the clock of its endpoint is alone where no other has. -/
theorem Alone.load (h : Alone dev s reached due) (filling : s.filling dev c = some (sub, e))
    (hlater : reached e < deadline)
    (none_else : ∀ c' sub', (due c').isSome → s.filling dev c' ≠ some (sub', e)) :
    Alone dev s reached fun c' => if c' = c then some deadline else due c' where
  later c' d hd := by
    split at hd
    · rename_i hc
      cases hd
      exact ⟨sub, e, hc ▸ filling, hlater⟩
    · exact h.later c' d hd
  one c₁ c₂ sub₁ sub₂ e' h₁ h₂ hf₁ hf₂ := by
    split at h₁ <;> split at h₂ <;> rename_i hc₁ hc₂
    · exact hc₁.trans hc₂.symm
    · rw [hc₁, filling] at hf₁
      cases hf₁
      exact absurd hf₂ (none_else c₂ sub₂ h₂)
    · rw [hc₂, filling] at hf₂
      cases hf₂
      exact absurd hf₁ (none_else c₁ sub₁ h₁)
    · exact h.one c₁ c₂ sub₁ sub₂ e' h₁ h₂ hf₁ hf₂

/-- What keeps every URB that is being filled by a thread with a deadline keeps `Alone`, where the
clocks of their endpoints stand. -/
theorem Alone.frame (h : Alone dev s reached due) {reached' : EpId → UInt64}
    {due' : ConnId → Option UInt64} (hdue : ∀ c d, due' c = some d → due c = some d)
    (hfilling : ∀ c filled, (due' c).isSome → s.filling dev c = some filled →
      s'.filling dev c = some filled)
    (hreached : ∀ c sub e, (due' c).isSome → s.filling dev c = some (sub, e) →
      reached' e = reached e) : Alone dev s' reached' due' where
  later c d hd := by
    obtain ⟨sub, e, hf, hlt⟩ := h.later c d (hdue c d hd)
    have hsome : (due' c).isSome := Option.isSome_of_eq_some hd
    exact ⟨sub, e, hfilling c _ hsome hf, hreached c sub e hsome hf ▸ hlt⟩
  one c₁ c₂ sub₁ sub₂ e h₁ h₂ hf₁ hf₂ := by
    obtain ⟨d₁, hd₁⟩ := Option.isSome_iff_exists.mp h₁
    obtain ⟨d₂, hd₂⟩ := Option.isSome_iff_exists.mp h₂
    obtain ⟨_, _, hg₁, -⟩ := h.later c₁ d₁ (hdue c₁ d₁ hd₁)
    obtain ⟨_, _, hg₂, -⟩ := h.later c₂ d₂ (hdue c₂ d₂ hd₂)
    cases (hfilling c₁ _ h₁ hg₁).symm.trans hf₁
    cases (hfilling c₂ _ h₂ hg₂).symm.trans hf₂
    exact h.one c₁ c₂ sub₁ sub₂ e (Option.isSome_of_eq_some (hdue c₁ d₁ hd₁))
      (Option.isSome_of_eq_some (hdue c₂ d₂ hd₂)) hg₁ hg₂

/-- The deadline is stored, and no other thread has one of this endpoint. -/
theorem Alone.store (h : Alone dev s reached due) (filling : s.filling dev c = some (sub, e))
    (hdue : due c = some deadline)
    (hkept : ∀ c' filled, c' ≠ c → s.filling dev c' = some filled →
      s'.filling dev c' = some filled) :
    Alone dev s' (fun e' => if e' = e then deadline else reached e')
      fun c' => if c' = c then none else due c' := by
  have hne : ∀ {c'}, (if c' = c then none else due c').isSome → c' ≠ c ∧ (due c').isSome := by
    intro c' hsome
    split at hsome
    · cases hsome
    · rename_i hc
      exact ⟨hc, hsome⟩
  refine h.frame (fun c' d hd => ?_) (fun c' filled hsome => hkept c' filled (hne hsome).1)
    fun c' sub' e' hsome hf => if_neg fun he => ?_
  · split at hd
    · cases hd
    · exact hd
  · subst he
    obtain ⟨hc, hsome⟩ := hne hsome
    exact hc (h.one c' c sub' sub e' hsome (Option.isSome_of_eq_some hdue) hf filling)

end alone

/-- The line of a connection after a step that hands nothing to the pacer. -/
theorem Kept.other (h : t.Kept dev) (hpaced : dev.isoPaced = true) {a : DevAct} {trace : DevTrace}
    (no_fill : ∀ c lens data deadline, a ≠ .conn c (.fill lens data deadline))
    (hs : t.trace.step dev (a.timed t.now) = some trace) :
    Kept dev { t with trace, unlinked := t.unlinked ++ t.trace.dev.struckBy a } := by
  obtain ⟨events, hstep, hlog⟩ := DevTrace.step_some hs
  have hdev := DevState.step_step hstep
  have halone : Alone dev trace.dev t.reached t.due :=
    h.alone.frame (fun _ _ hd => hd) (fun c' _ _ hf => filling_kept hdev hf
      fun _ _ _ hact => no_fill _ _ _ _ (timed_fill hact)) fun _ _ _ _ _ => rfl
  refine ⟨hdev.pacing h.pacing, halone, h.reached, fun c e => ?_⟩
  have hfair := h.fair c e
  have hline : (({ t with trace, unlinked := t.unlinked ++ t.trace.dev.struckBy a } : PaceTrace).line
      c) = { came := (t.line c).came
             served := (t.line c).served ++ events.filterMap (DevEvent.isoSent c)
             waiting := trace.dev.waiting c
             struck := (t.line c).struck ++ ofConn c (t.trace.dev.struckBy a) } := by
    rw [line, hlog, List.filterMap_append, ofConn_append]
    rfl
  rw [hline]
  have hseen := hdev.seen hpaced c
  generalize hact : a.timed t.now = act at hseen
  cases hseen with
  | aside elsewhere same none_sent =>
    have hstruck : ofConn c (t.trace.dev.struckBy a) = [] :=
      ofConn_struckBy _ _ fun conn hfound hserve =>
        absurd (hact.symm.trans (timed_serve hserve)) (elsewhere _)
    rw [none_sent, hstruck, same, List.append_nil, List.append_nil]
    exact hfair
  | @conn b conn conn' sent _ _ found becomes sent_eq step =>
    have hwaiting : (t.line c).waiting = conn.waiting := by
      rw [line, DevState.waiting, found]
      rfl
    rw [sent_eq, becomes]
    refine step.fair (fun _ _ _ hb => no_fill _ _ _ _ (timed_fill (hb ▸ hact))) hfair hwaiting
      (fun hb => ?_) fun hb => ofConn_struckBy _ _ fun _ _ ha => ?_
    · subst hb
      rw [timed_eq_serve hact, DevState.struckBy, ofConn_pairs, if_pos rfl, found]
      rfl
    · have hserve := hact.symm.trans (timed_serve ha)
      cases hserve
      exact absurd rfl hb

/-- The next completion of an endpoint has a later deadline than all before it. -/
theorem Kept.fill (h : t.Kept dev) (hpaced : dev.isoPaced = true) {c : ConnId} {lens : List UInt32}
    {data : List UInt8} {deadline : UInt64} {sub : Submit} {e : EpId} {trace : DevTrace}
    (filling : t.trace.dev.filling dev c = some (sub, e)) (due : t.due c = some deadline)
    (hs : t.trace.step dev (.conn c (.fill lens data deadline)) = some trace) :
    Kept dev { t with
      trace
      reached := fun e' => if e' = e then deadline else t.reached e'
      due := fun c' => if c' = c then none else t.due c'
      accepted := t.accepted ++ [(c, .of sub lens data deadline)] } := by
  obtain ⟨events, hstep, hlog⟩ := DevTrace.step_some hs
  have hdev := DevState.step_step hstep
  obtain ⟨conn, found, in_iso, route⟩ := filling_some filling
  have hlater : t.reached e < deadline := by
    obtain ⟨_, _, hf, hlt⟩ := h.alone.later c deadline due
    cases filling.symm.trans hf
    exact hlt
  have halone := h.alone.store filling due fun c' _ hc hf => filling_kept hdev hf
    fun _ _ _ hact => hc (by cases hact; rfl)
  have hcame : ∀ c', ofConn c' (t.accepted ++ [(c, PacedRet.of sub lens data deadline)]) =
      (t.line c').came ++ if c = c' then [.of sub lens data deadline] else [] := fun c' => by
    rw [ofConn_append]
    exact congrArg (ofConn c' t.accepted ++ ·) (ofConn_pairs c' c [_])
  have hon : ∀ e', (PacedRet.of sub lens data deadline).isOn dev e' → e' = e := fun e' hon =>
    (Option.some.inj (route.symm.trans (of_decide_eq_true hon))).symm
  refine ⟨hdev.pacing h.pacing, halone, fun c' e' a ha hae => ?_, fun c' e' => ?_⟩
  · have ha : a ∈ ofConn c' (t.accepted ++ [(c, PacedRet.of sub lens data deadline)]) := ha
    rw [hcame, List.mem_append] at ha
    dsimp only
    rcases ha with hold | hnew
    · have hle := h.reached c' e' a hold hae
      split
      · rename_i he
        subst he
        exact UInt64.le_trans hle (UInt64.le_of_lt hlater)
      · exact hle
    · split at hnew
      · obtain rfl := List.mem_singleton.mp hnew
        rw [if_pos (hon e' hae)]
        exact UInt64.le_refl _
      · cases hnew
  · have hfair := h.fair c' e'
    have hline : (({ t with
        trace
        reached := fun e' => if e' = e then deadline else t.reached e'
        due := fun c' => if c' = c then none else t.due c'
        accepted := t.accepted ++ [(c, .of sub lens data deadline)] } : PaceTrace).line c') =
        { came := (t.line c').came ++ if c = c' then [.of sub lens data deadline] else []
          served := (t.line c').served ++ events.filterMap (DevEvent.isoSent c')
          waiting := trace.dev.waiting c'
          struck := (t.line c').struck } := by
      rw [line, hlog, List.filterMap_append, hcame]
      rfl
    rw [hline]
    have hseen := hdev.seen hpaced c'
    cases hseen with
    | aside elsewhere same none_sent =>
      have hne : c ≠ c' := fun hc => elsewhere _ (by rw [hc])
      rw [if_neg hne, none_sent, same]
      simp only [List.append_nil]
      exact hfair
    | @conn _ conn₁ conn' sent _ _ found₁ becomes sent_eq step =>
      obtain rfl : conn = conn₁ := Option.some.inj (found.symm.trans found₁)
      rw [if_pos rfl, sent_eq, becomes]
      cases step with
      | quiet _ _ no_fill => exact absurd rfl (no_fill _ _ _)
      | @filled sub₁ _ _ _ _ in_iso₁ added =>
        cases in_iso.symm.trans in_iso₁
        have hwaiting : (t.line c).waiting = conn.waiting := by
          rw [line, DevState.waiting, found]
          rfl
        rw [added, ← hwaiting]
        simp only [List.filterMap_nil, List.append_nil]
        refine hfair.enter fun hae b hb hbe => ?_
        obtain rfl := hon e' hae
        exact UInt64.lt_of_le_of_lt (h.reached c e' b hb hbe) hlater

theorem Kept.step (h : t.Kept dev) (hpaced : dev.isoPaced = true) {act : PaceAct}
    (hfit : t.Fits k dev act) (hs : t.step k dev act = some t') : t'.Kept dev := by
  have hstep := step_step hs
  cases hstep with
  | tick => exact ⟨h.pacing, h.alone, h.reached, h.fair⟩
  | load filling deadline_eq =>
    obtain ⟨conn, found, in_iso, -⟩ := filling_some filling
    obtain ⟨⟨hdef, hsum⟩, hnone⟩ := hfit _ filling
    have hpackets := (h.pacing _ conn found).packets _ in_iso
    refine ⟨h.pacing, h.alone.load filling ?_ fun c' sub' hsome hf => ?_, h.reached, h.fair⟩
    · rw [← deadline_eq]
      exact IsoTiming.reached_lt_isoDeadline hdef (by omega) hsum
    · obtain ⟨conn', found', -⟩ := filling_some hf
      exact hnone c' (List.getElem?_eq_some_iff.mp found').1 hsome _ hf rfl
  | fill filling due step => exact h.fill hpaced filling due step
  | other no_fill step => exact h.other hpaced no_fill step

/-! ### The pacer goes on -/

/-- How much the pacer of a connection has still to do. -/
def load (conn : Conn) : Nat := 2 * conn.paceHead.length + conn.sending.toList.length

theorem pace_some (c : ConnId) {conn : Conn} {now : UInt64}
    (h : conn.sending.isSome ∨ ∃ entry ∈ conn.paceHead, conn.paceStop ∨ entry.deadline ≤ now) :
    ∃ conn' sent, conn.pace c now = some (conn', none, sent) ∧ conn'.serving = conn.serving ∧
      conn'.paceStop = conn.paceStop ∧ load conn' + 1 = load conn := by
  unfold Conn.pace load
  cases hsending : conn.sending with
  | some entry => exact ⟨_, _, rfl, rfl, rfl, rfl⟩
  | none =>
    rw [hsending] at h
    obtain ⟨entry, hmem, hdue⟩ := h.resolve_left (by simp)
    cases hpop : popEarliest conn.paceHead with
    | none =>
      rw [popEarliest_eq_none.mp hpop] at hmem
      cases hmem
    | some popped =>
      obtain ⟨first, rest⟩ := popped
      have hle := popEarliest_le hpop entry hmem
      have hfirst : conn.paceStop ∨ first.deadline ≤ now :=
        hdue.imp_right fun hdue => UInt64.le_trans hle hdue
      have hlen := (popEarliest_perm hpop).length_eq
      refine ⟨_, _, if_pos hfirst, rfl, rfl, ?_⟩
      rw [List.length_cons] at hlen
      simp only [Option.toList_some, Option.toList_none, List.length_singleton, List.length_nil]
      omega

/-- A step of a pacer changes its own connection. -/
theorem pacer_step (k : IsoTiming) (dev : Plugged) {c : ConnId} {conn conn' : Conn} {sent : List DevEvent}
    (hfound : t.trace.dev.conns[c]? = some conn) (h : conn.pace c t.now = some (conn', none, sent)) :
    ∃ t', t.step k dev (.dev (.conn c (.pacer 0))) = some t' ∧
      t'.trace.dev.conns[c]? = some conn' ∧ t'.trace.log = t.trace.log ++ sent ∧
        t'.now = t.now ∧ t'.unlinked = t.unlinked ∧ t'.accepted = t.accepted := by
  have hstep : t.trace.dev.step dev (.conn c (.pacer t.now)) =
      some (t.trace.dev.setConn c conn', [] ++ sent) := by
    simp only [DevState.step, hfound, Conn.step, h, DevState.runSection, Option.map_some]
  have htrace : t.trace.step dev (.conn c (.pacer t.now)) =
      some ⟨t.trace.dev.setConn c conn', t.trace.log ++ ([] ++ sent)⟩ := by
    rw [DevTrace.step, hstep]
    rfl
  refine ⟨{ t with
    trace := ⟨t.trace.dev.setConn c conn', t.trace.log ++ ([] ++ sent)⟩
    unlinked := t.unlinked ++ [] }, ?_, ?_, rfl, rfl, List.append_nil _, rfl⟩
  · simp only [step, DevAct.timed, htrace, DevState.struckBy, Option.map_some]
  · exact (DevState.setConn_conns hfound conn' c).trans (if_pos rfl)

/-- The pacer of a connection that closes sends all that waits. -/
theorem drain (k : IsoTiming) (dev : Plugged) {c : ConnId} {n : Nat} {conn : Conn} (hfound : t.trace.dev.conns[c]? = some conn)
    (hclosing : conn.serving = .closing) (hstop : conn.paceStop = true) (hload : load conn = n) :
    ∃ t' conn', exec (step k dev) t (List.replicate n (.dev (.conn c (.pacer 0)))) = some t' ∧
      t'.trace.dev.conns[c]? = some conn' ∧ conn'.serving = .closing ∧ conn'.paceHead = [] ∧
        conn'.sending = none ∧ t'.unlinked = t.unlinked ∧ t'.accepted = t.accepted := by
  induction n generalizing t conn with
  | zero =>
    rw [load] at hload
    refine ⟨t, conn, rfl, hfound, hclosing, ?_, ?_, rfl, rfl⟩
    · exact List.eq_nil_of_length_eq_zero (by omega)
    · have hnil : conn.sending.toList = [] := List.eq_nil_of_length_eq_zero (by omega)
      exact Option.toList_eq_nil_iff.mp hnil
  | succ n ih =>
    have hbusy : conn.sending.isSome ∨
        ∃ entry ∈ conn.paceHead, conn.paceStop ∨ entry.deadline ≤ t.now := by
      rw [load] at hload
      cases hsending : conn.sending with
      | some entry => exact .inl rfl
      | none =>
        rw [hsending, Option.toList_none, List.length_nil] at hload
        obtain ⟨entry, hmem⟩ := List.exists_mem_of_length_pos (l := conn.paceHead) (by omega)
        exact .inr ⟨entry, hmem, .inl hstop⟩
    obtain ⟨conn₁, sent, hpace, hserving, hstop₁, hload₁⟩ := pace_some c hbusy
    obtain ⟨t₁, hstep, hfound₁, -, -, hunlinked, haccepted⟩ :=
      pacer_step k dev hfound hpace
    obtain ⟨t', conn', hexec, hfound', hclosing', hhead, hsend, hunlinked', haccepted'⟩ :=
      ih hfound₁ (hserving.trans hclosing) (hstop₁.trans hstop) (by omega)
    refine ⟨t', conn', ?_, hfound', hclosing', hhead, hsend, hunlinked'.trans hunlinked,
      haccepted'.trans haccepted⟩
    rw [List.replicate_succ, exec_cons, hstep]
    exact hexec

theorem Kept.inOrder (h : t.Kept dev) (c : ConnId) (e : EpId) : t.InOrder k dev c e where
  fair := h.fair c e
  prompt conn hfound hdue := by
    obtain ⟨conn', sent, hpace, -⟩ := pace_some c
      (hdue.imp_right fun ⟨entry, hmem, hle⟩ => ⟨entry, hmem, .inr hle⟩)
    obtain ⟨t', hstep, -⟩ := pacer_step k dev hfound hpace
    rw [hstep]
    rfl
  drains conn hfound hclosing := by
    obtain ⟨t', conn', hexec, hfound', hclosing', hhead, hsend, hunlinked, haccepted⟩ :=
      drain k dev hfound hclosing ((h.pacing c conn hfound).told hclosing) rfl
    refine ⟨_, t', hexec, ?_, hunlinked, haccepted, ?_⟩
    · have hwaiting : (t'.line c).waiting = conn'.waiting := by
        rw [line, DevState.waiting, hfound']
        rfl
      rw [hwaiting, Conn.waiting, hhead, hsend]
      rfl
    · have hserve : conn'.serve dev t'.trace.dev.eps c =
          some ({ conn' with serving := .returned }, none, []) := by
        rw [Conn.serve, hclosing']
        exact if_pos ⟨hhead, hsend⟩
      simp only [PaceTrace.step, DevAct.timed, DevTrace.step, DevState.step, hfound', Conn.step, hserve,
        DevState.runSection, Option.map_some, Option.isSome_some]
  stopped conn hfound hreturned := by
    rw [line, DevState.waiting, hfound]
    exact (h.pacing c conn hfound).gone hreturned

/-- In every run of a device that paces, in which every deadline is one that C defines and fits in
64 bits and no two threads compute one of the same endpoint at a time, the completions of every
endpoint are sent in the order of their URBs, each once, but for those that an unlink takes off, and
none is lost when the pacer is stopped. -/
theorem paced_in_order (k : IsoTiming) {dev : Plugged} (hpaced : dev.isoPaced = true) (now : UInt64)
    {acts : List PaceAct} (hfits : Guarded (step k dev) (Fits k dev) (new dev now) acts) :
    Throughout (step k dev) (fun t => ∀ c e, t.InOrder k dev c e) (new dev now) acts :=
  throughout_of_guarded (fun _ h c e => Kept.inOrder h c e)
    (fun _ _ _ h hfit hs => h.step hpaced hfit hs) (.new now) hfits

/-- A `CMD_SUBMIT` of an isochronous IN URB for endpoint 1. -/
def isoIn (seqnum : UInt32) (numberOfPackets : Int) (iso : List IsoPkt) : Submit :=
  { urb := .bulkIn 0 seqnum 0, setup := ⟨0, 0, 0, 0, 0⟩, numberOfPackets, iso }

/-- A device that paces its one endpoint, isochronous IN and number 1. -/
def oneIso : Plugged := { Plugged.oneIn with isIso := fun _ => true, isoPaced := true }

/-- The packets of every URB are as many as it says, and so many as the device reads. -/
def Packed (acts : List PaceAct) : Prop :=
  ∀ c sub, .dev (.conn c (.submit sub)) ∈ acts →
    sub.numberOfPackets = sub.iso.length ∧ sub.iso.length ≤ 2 ^ 27

/-- A URB comes on the first connection and is handed to the pacer. -/
def urbRun (numberOfPackets : Int) (iso : List IsoPkt) (seqnum : UInt32) : List PaceAct :=
  [.dev (.conn 0 (.submit (isoIn seqnum numberOfPackets iso))), .load 0,
    .dev (.conn 0 (.fill [] [] 0))]

/-- A host attaches and submits `n` URBs of one size. -/
def urbsRun (numberOfPackets : Int) (iso : List IsoPkt) (n : Nat) : List PaceAct :=
  .dev .connect :: (List.range n).flatMap fun i => urbRun numberOfPackets iso (i + 1).toUInt32

section rounds

variable {numberOfPackets : Int} {iso : List IsoPkt}

theorem urbsRun_succ (n : Nat) : urbsRun numberOfPackets iso (n + 1) =
    urbsRun numberOfPackets iso n ++ urbRun numberOfPackets iso (n + 1).toUInt32 := by
  rw [urbsRun, List.range_succ, List.flatMap_append, List.flatMap_singleton]
  rfl

theorem mem_urbsRun {act : PaceAct} {n : Nat} (h : act ∈ urbsRun numberOfPackets iso n) :
    act = .dev .connect ∨ ∃ seqnum, act ∈ urbRun numberOfPackets iso seqnum := by
  rcases List.mem_cons.mp h with h | h
  · exact .inl h
  · obtain ⟨i, -, hi⟩ := List.mem_flatMap.mp h
    exact .inr ⟨_, hi⟩

theorem packed_urbsRun (hiso : numberOfPackets = iso.length) (hle : iso.length ≤ 2 ^ 27) (n : Nat) :
    Packed (urbsRun numberOfPackets iso n) := by
  intro c sub hmem
  rcases mem_urbsRun hmem with h | ⟨seqnum, h⟩
  · cases h
  · simp only [urbRun, List.mem_cons, PaceAct.dev.injEq, DevAct.conn.injEq, ConnAct.submit.injEq,
      reduceCtorEq, and_false, or_false, List.not_mem_nil] at h
    obtain ⟨-, rfl⟩ := h
    exact ⟨hiso, hle⟩

theorem count_urbsRun (n : Nat) :
    (urbsRun numberOfPackets iso n).count (.dev .connect) = 1 := by
  rw [urbsRun, List.count_cons_self, List.count_eq_zero_of_not_mem]
  intro h
  obtain ⟨i, -, hi⟩ := List.mem_flatMap.mp h
  simp only [urbRun, List.mem_cons, PaceAct.dev.injEq, reduceCtorEq, or_false,
    List.not_mem_nil] at hi

/-- The timing of a high-speed endpoint with an interval of 26. -/
def slowHigh : IsoTiming := ⟨usbSpeedHigh, fun _ => 26, fun _ => 0⟩

/-- What `n` URBs of 2^27 packets, which come while the clock stands, leave of the device. -/
structure Submitted (t : PaceTrace) (n : Nat) : Prop where
  conns : ∃ paceHead, t.trace.dev.conns = [⟨.idle, false, paceHead, none⟩]
  running : (t.trace.dev.eps 0).halted = false
  now : t.now = 0
  reached : t.reached 0 = UInt64.ofNat (n * 562949953421312000)
  due : t.due 0 = none

theorem step_isoIn {eps : EpId → EpState} (running : (eps 0).halted = false)
    (paceHead : List PacedRet) (seqnum : UInt32) :
    Conn.step oneIso eps 0 ⟨.idle, false, paceHead, none⟩ (.submit (isoIn seqnum 134217728 iso)) =
      some (⟨.iso (isoIn seqnum 134217728 iso), false, paceHead, none⟩, none,
        [.submitted 0 seqnum]) := by
  have hdispatch : Conn.dispatch oneIso eps (isoIn seqnum 134217728 iso) =
      if (eps 0).halted then (.answer (isoIn seqnum 134217728 iso).urb usbipStatusStall .null 0, none)
      else (.iso (isoIn seqnum 134217728 iso), none) := rfl
  rw [running, if_neg Bool.false_ne_true] at hdispatch
  have hstep : Conn.step oneIso eps 0 ⟨.idle, false, paceHead, none⟩
        (.submit (isoIn seqnum 134217728 iso)) =
      some (⟨(Conn.dispatch oneIso eps (isoIn seqnum 134217728 iso)).1, false, paceHead, none⟩,
        (Conn.dispatch oneIso eps (isoIn seqnum 134217728 iso)).2, [.submitted 0 seqnum]) := rfl
  rw [hstep, hdispatch]

theorem Submitted.urb {t : PaceTrace} {n : Nat} (h : Submitted t n) (seqnum : UInt32) :
    ∃ t', exec (step slowHigh oneIso) t (urbRun 134217728 iso seqnum) = some t' ∧
      Submitted t' (n + 1) ∧ t'.accepted = t.accepted ++
        [(0, .of (isoIn seqnum 134217728 iso) [] [] (UInt64.ofNat ((n + 1) * 562949953421312000)))] := by
  obtain ⟨⟨paceHead, hconns⟩, hrunning, hnow, hreached, hdue⟩ := h
  obtain ⟨⟨⟨eps, conns⟩, log⟩, now, reached, due, accepted, unlinked⟩ := t
  dsimp only at hconns hrunning hnow hreached hdue
  subst hconns hnow
  have hdeadline : slowHigh.isoDeadline 0 (reached 0) 0 134217728 =
      UInt64.ofNat ((n + 1) * 562949953421312000) := by
    have hnot : ¬reached 0 < 0 := UInt64.not_lt_zero
    rw [IsoTiming.isoDeadline, if_neg hnot, hreached, Nat.succ_mul, UInt64.ofNat_add]
    rfl
  let sub := isoIn seqnum 134217728 iso
  let deadline := UInt64.ofNat ((n + 1) * 562949953421312000)
  let filling : PaceTrace :=
    ⟨⟨⟨eps, [⟨.iso sub, false, paceHead, none⟩]⟩, log ++ [.submitted 0 seqnum]⟩, 0, reached, due,
      accepted, unlinked ++ []⟩
  let handed : PaceTrace :=
    ⟨⟨⟨eps, [⟨.idle, false, .of sub [] [] deadline :: paceHead, none⟩]⟩,
      log ++ [.submitted 0 seqnum] ++ []⟩, 0, fun e => if e = 0 then deadline else reached e,
      fun c => if c = 0 then none else if c = 0 then some deadline else due c,
      accepted ++ [(0, .of sub [] [] deadline)], unlinked ++ []⟩
  have hload : step slowHigh oneIso filling (.load 0) =
      some { filling with due := fun c => if c = 0 then some deadline else due c } := by
    have hfilling : filling.trace.dev.filling oneIso 0 = some (sub, 0) := rfl
    have hdeadline : slowHigh.isoDeadline 0 (filling.reached 0) filling.now
        sub.numberOfPackets.toNat = deadline := hdeadline
    have hdue : filling.due 0 = none := hdue
    simp only [step, hfilling, hdue, hdeadline]
    rfl
  have hfill : step slowHigh oneIso
      { filling with due := fun c => if c = 0 then some deadline else due c }
      (.dev (.conn 0 (.fill [] [] 0))) = some handed := rfl
  have hsubmit : step slowHigh oneIso ⟨⟨⟨eps, [⟨.idle, false, paceHead, none⟩]⟩, log⟩, 0, reached,
    due, accepted, unlinked⟩ (.dev (.conn 0 (.submit sub))) = some filling := by
    simp only [step, DevAct.timed, DevTrace.step, DevState.step, List.getElem?_cons_zero]
    rw [step_isoIn hrunning]
    rfl
  refine ⟨handed, ?_, ⟨⟨_, rfl⟩, hrunning, rfl, rfl, rfl⟩, rfl⟩
  calc exec (step slowHigh oneIso) _ (urbRun 134217728 iso seqnum)
      = (step slowHigh oneIso _ (.dev (.conn 0 (.submit sub)))).bind fun t =>
          (step slowHigh oneIso t (.load 0)).bind fun t =>
            (step slowHigh oneIso t (.dev (.conn 0 (.fill [] [] 0)))).bind some := rfl
    _ = some handed := by
      rw [hsubmit, Option.bind_some, hload, Option.bind_some, hfill, Option.bind_some]

/-- The completion of the URB that came after `i` others. -/
def nthRet (iso : List IsoPkt) (i : Nat) : PacedRet :=
  .of (isoIn (i + 1).toUInt32 134217728 iso) [] [] (UInt64.ofNat ((i + 1) * 562949953421312000))

theorem submitted_urbsRun (n : Nat) : ∃ t,
    exec (step slowHigh oneIso) (new oneIso 0) (urbsRun 134217728 iso n) = some t ∧ Submitted t n ∧
      t.accepted = (List.range n).map fun i => (0, nthRet iso i) := by
  induction n with
  | zero => exact ⟨_, rfl, ⟨⟨[], rfl⟩, rfl, rfl, rfl, rfl⟩, rfl⟩
  | succ n ih =>
    obtain ⟨t, ht, hsub, haccepted⟩ := ih
    obtain ⟨t', ht', hsub', haccepted'⟩ := hsub.urb (n + 1).toUInt32
    refine ⟨t', ?_, hsub', ?_⟩
    · rw [urbsRun_succ, exec_append, ht]
      exact ht'
    · rw [haccepted', haccepted, List.range_succ, List.map_append]
      rfl

end rounds

/-- At high speed and with an interval of 26 the deadline of the 33rd URB of 2^27 packets does not
fit in 64 bits, and the URB that came last is the first to be due. -/
theorem paced_out_of_order : ¬∀ (k : IsoTiming) (dev : Plugged) (now : UInt64) (acts : List PaceAct),
    dev.isoPaced = true → Packed acts → acts.count (.dev .connect) = 1 →
      Throughout (step k dev) (fun t => ∀ c e, t.InOrder k dev c e) (new dev now) acts := by
  intro h
  obtain ⟨iso, hlen⟩ : ∃ l : List IsoPkt, l.length = 2 ^ 27 :=
    ⟨_, List.length_replicate (a := ⟨0, 0, 0, 0⟩)⟩
  obtain ⟨t, ht, hsub, haccepted⟩ := @submitted_urbsRun iso 33
  have hend := (h slowHigh oneIso 0 _ rfl (packed_urbsRun (by rw [hlen]; rfl) (by omega) 33)
    (count_urbsRun 33)).last ht 0 0
  have hcame : (t.line 0).came = (List.range 33).map (nthRet iso) := by
    have hpairs := ofConn_pairs 0 0 ((List.range 33).map (nthRet iso))
    rw [List.map_map] at hpairs
    rw [line, haccepted]
    exact hpairs
  have hall : ∀ entry ∈ (List.range 33).map (nthRet iso), entry.isOn oneIso 0 = true := by
    intro entry hmem
    obtain ⟨i, -, rfl⟩ := List.mem_map.mp hmem
    rfl
  have hinc := hend.fair.increasing
  rw [hcame, List.filter_eq_self.mpr hall, List.pairwise_map] at hinc
  -- the first URB and the last
  have hends : [0, 32].Sublist (List.range 33) := by decide
  have hlt := List.rel_of_pairwise_cons (hinc.sublist hends) (List.mem_singleton_self 32)
  exact absurd hlt (show ¬UInt64.ofNat ((0 + 1) * 562949953421312000) <
    UInt64.ofNat ((32 + 1) * 562949953421312000) by decide)

instance (k : IsoTiming) (dev : Plugged) (t : PaceTrace) : DecidablePred (t.Fits k dev) := fun act =>
  match act with
  | .load c => inferInstanceAs (Decidable (∀ filled ∈ t.trace.dev.filling dev c, _ ∧ _))
  | .tick _ | .dev _ => isTrue trivial

theorem paced_in_order_threeRun :
    Throughout (step ⟨1, fun _ => 1, fun _ => 0⟩ oneIso)
      (fun t => ∀ c e, t.InOrder ⟨1, fun _ => 1, fun _ => 0⟩ oneIso c e) (new oneIso 7)
      (urbsRun 1 [⟨0, 0, 0, 0⟩] 3 ++ [.dev (.conn 0 .disconnect)]) :=
  paced_in_order _ rfl 7 (by decide)

end PaceTrace

end Usbip
