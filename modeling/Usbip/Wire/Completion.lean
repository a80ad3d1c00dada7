import Usbip.Lib.Receive
import Usbip.Wire.Client

/-! How the client takes the reply to a submission off the stream: what it does to the caller's
buffer, and what it reports.  The reply is whatever the peer sends. -/

namespace Usbip.IsoPkt

/-- The bytes of its slot. -/
def Slot (pkt : IsoPkt) (x : Nat) : Prop :=
  pkt.offset.toNat ≤ x ∧ x < pkt.offset.toNat + pkt.length.toNat

/-- The bytes of the buffer that the packet takes up with what was transferred. -/
def Taken (pkt : IsoPkt) (x : Nat) : Prop :=
  pkt.offset.toNat ≤ x ∧ x < pkt.offset.toNat + pkt.actualLength.toNat

end Usbip.IsoPkt

namespace Usbip.Wire

open Lib

@[simp] def usbipRetStatusOff : Nat := 20
@[simp] def usbipRetActualOff : Nat := 24
@[simp] def usbipRetNumpktsOff : Nat := 32

def usbErrorPipe : Int := -9

/-- What the client runs in: whether traffic is captured, and which allocations succeed. -/
structure ClientEnv where
  capture : Bool
  malloc : Nat → Bool

/-- What a submission leaves: its touches on the buffer, what it returns, what `*actual` is set to,
and the caller's packets. -/
structure Completion where
  touches : List Touch
  rc : Int
  actual : Option Int
  pkts : List IsoPkt
  deriving DecidableEq, Repr

/-- A transfer of `usbip_client_submit` that waits for its reply, in a buffer of `len` bytes. -/
structure Awaited where
  dir : UInt32
  ep : UInt32
  setup : Option (Vector UInt8 8)
  len : Nat
  len_lt : len < 2 ^ 31
  /-- the length of a control transfer is its `wLength` -/
  control : setup ≠ none → len < 2 ^ 16

/-- A transfer of `usbip_client_submit_iso` that waits for its reply. -/
structure AwaitedIso where
  dir : UInt32
  pkts : List IsoPkt
  npkts : pkts.length < 2 ^ 31

/-- A value as a `size_t`. -/
def sizeT (n : Int) : Nat := (n % 2 ^ 64).toNat

def clientStatusError (status : Int) : Int :=
  if status = usbipStatusStall ∨ status = usbErrorPipe then usbErrorPipe else usbErrorIo

/-- `usbip_pcap_packet` copies the data into its record, whose length is an `int`. -/
def ClientEnv.Captures (env : ClientEnv) (dataLen : Int) : Prop :=
  env.capture ∧ 0 < dataLen ∧ env.malloc (sizeT (int32 (UInt32.ofInt (64 + dataLen))))

instance (env : ClientEnv) (dataLen : Int) : Decidable (env.Captures dataLen) :=
  inferInstanceAs (Decidable (_ ∧ _))

/-- The reads of the caller's buffer by `usbip_pcap_packet`; `data` is whether its pointer is not
null. -/
def pcapPacket (env : ClientEnv) (data : Bool) (dataLen : Int) : List Touch :=
  if data ∧ env.Captures dataLen then [.look 0 dataLen.toNat] else []

def isConfigDescriptorReply (w : Awaited) (status act : Int) : Bool :=
  if w.ep ≠ 0 ∨ w.dir ≠ usbIn ∨ status ≠ 0 ∨ act ≤ 0 then false
  else match w.setup with
    | none => false
    | some setup => setup[0] == 0x80 && setup[1] == 6 && setup[3] == 2

/-- The reads of `pcap_epmap_learn`, from offset `i` of a configuration on. -/
def pcapEpmapLearn (cfg : List UInt8) (i : Nat) : List Touch :=
  if i + 2 ≤ cfg.length then
    let blen := (cfg.getD i 0).toNat
    if blen = 0 then [.look i 2]
    else if cfg.getD (i + 1) 0 = 5 ∧ 7 ≤ blen ∧ i + 7 ≤ cfg.length then
      .look i 2 :: .look (i + 2) 2 :: pcapEpmapLearn cfg (i + blen)
    else .look i 2 :: pcapEpmapLearn cfg (i + blen)
  else []
termination_by cfg.length - i
decreasing_by all_goals grind

/-- The bytes that the buffer has no room for: they go to `tmp`, 256 at a time. -/
def drain (rest : Nat) (s : List UInt8) : Option (List UInt8) :=
  if rest = 0 then some s
  else (readn (min rest 256) s).bind fun got => drain (rest - min rest 256) got.2
termination_by rest

namespace Awaited

variable (env : ClientEnv) (w : Awaited)

/-- The end of `usbip_client_submit`, with `act` bytes reported and `got` in the buffer. -/
def finish (status act : Int) (got : List UInt8) : Completion where
  touches := .fill got ::
    ((if env.capture ∧ isConfigDescriptorReply w status act then pcapEpmapLearn got 0 else []) ++
      pcapPacket env (w.dir = usbIn ∧ 0 < act) (if w.dir = usbIn then act else 0))
  rc := if status ≠ 0 then clientStatusError status else usbSuccess
  actual := some act
  pkts := []

/-- `usbip_client_submit` from the reply on. -/
def complete (s : List UInt8) : Completion :=
  match readn usbipHdrLen s with
  | none => ⟨[], usbErrorIo, none, []⟩
  | some (ret, s) =>
    let status := int32 (word ret usbipRetStatusOff)
    let act := int32 (word ret usbipRetActualOff)
    if w.dir = usbIn ∧ 0 < act then
      let into : Int := min act w.len
      match readn into.toNat s with
      | none => ⟨[.fill s], usbErrorIo, none, []⟩
      | some (got, s) =>
        match drain (act - into).toNat s with
        | none => ⟨[.fill got], usbErrorIo, none, []⟩
        | some _ => w.finish env status into got
    else w.finish env status act []

end Awaited

namespace AwaitedIso

variable (env : ClientEnv) (w : AwaitedIso)

/-- The packet's part of the data goes to its place in the buffer, and `cum` past it. `tmp` is none
for a null pointer. -/
def copyPacket (tmp : Option (List UInt8)) (pkt : IsoPkt) (cum : UInt32) : List Touch × UInt32 :=
  match tmp with
  | some tmp =>
    if w.dir = usbIn ∧ pkt.actualLength ≠ 0 then
      ([.copy tmp cum.toNat pkt.offset.toNat pkt.actualLength.toNat], cum + pkt.actualLength)
    else ([], cum)
  | none => ([], cum)

/-- The loop of `usbip_client_submit_iso` over `n` descriptors from the `i`th on: what it touches,
and the packets it parses. The offset of a descriptor is an `int`. -/
def scatter (tmp : Option (List UInt8)) (rd : List UInt8) :
    (n i : Nat) → (cum : UInt32) → List Touch × List IsoPkt
  | 0, _, _ => ([], [])
  | n + 1, i, cum =>
    let pkt := isoDescParse (recordAt usbipIsoDescLen rd i)
    let load := Touch.load rd (int32 (.ofNat (i * usbipIsoDescLen))) usbipIsoDescLen
    let copied := w.copyPacket tmp pkt cum
    let rest := scatter tmp rd n (i + 1) copied.2
    (load :: (copied.1 ++ rest.1), pkt :: rest.2)

/-- The end of `usbip_client_submit_iso`. -/
def finish (status : Int) (actual : UInt32) (scattered : List Touch × List IsoPkt) :
    Completion where
  touches := scattered.1 ++ pcapPacket env (w.dir = usbIn ∧ 0 < actual)
    (if w.dir = usbIn then int32 actual else 0)
  rc := if status ≠ 0 then clientStatusError status else usbSuccess
  actual := some (int32 actual)
  pkts := scattered.2 ++ w.pkts.drop scattered.2.length

/-- The data of an IN reply in a block of its own. -/
def readTmp (actual : UInt32) (s : List UInt8) :
    Option (Option (List UInt8) × List UInt8) :=
  if w.dir = usbIn ∧ 0 < actual then
    if env.malloc actual.toNat then
      (readn actual.toNat s).map fun got => (some got.1, got.2)
    else none
  else some (none, s)

/-- `usbip_client_submit_iso` from the reply on. -/
def complete (s : List UInt8) : Completion :=
  match readn usbipHdrLen s with
  | none => ⟨[], usbErrorIo, none, w.pkts⟩
  | some (ret, s) =>
    let status := int32 (word ret usbipRetStatusOff)
    let actual := word ret usbipRetActualOff
    let rnp := int32 (word ret usbipRetNumpktsOff)
    match w.readTmp env actual s with
    | none => ⟨[], usbErrorIo, none, w.pkts⟩
    | some (tmp, s) =>
      if 0 < rnp then
        if env.malloc (rnp.toNat * usbipIsoDescLen) then
          match readn (rnp.toNat * usbipIsoDescLen) s with
          | none => ⟨[], usbErrorIo, none, w.pkts⟩
          | some (rd, _) =>
            w.finish env status actual (w.scatter tmp rd (min rnp.toNat w.pkts.length) 0 0)
        else ⟨[], usbErrorIo, none, w.pkts⟩
      else w.finish env status actual ([], [])

end AwaitedIso

/-- A transfer that waits for its reply. -/
inductive Waiting
  | submit (w : Awaited)
  | submitIso (w : AwaitedIso)

namespace Waiting

def complete (env : ClientEnv) : Waiting → List UInt8 → Completion
  | submit w, reply => w.complete env reply
  | submitIso w, reply => w.complete env reply

end Waiting

/-! ### What the caller relies on -/

def AwaitedIso.total (w : AwaitedIso) : Nat := (w.pkts.map fun pkt => pkt.length.toNat).sum

namespace Waiting

/-- The bytes of the caller's buffer that the transfer may write. -/
def Own : Waiting → Nat → Prop
  | submit w, x => x < w.len
  | submitIso w, x => ∃ slot ∈ w.pkts, slot.Slot x

/-- The length that was requested. -/
def requested : Waiting → Nat
  | submit w => w.len
  | submitIso w => w.total

end Waiting

/-- The buffer is written where the caller allows it, only what was received is read, and a transfer
that does not fail reports a length up to the one requested. -/
structure Completion.Sound (own : Nat → Prop) (requested : Nat) (done : Completion) : Prop where
  contained : Contained own (fun _ => False) done.touches
  reported : done.rc < 0 ∨ ∃ n ∈ done.actual, 0 ≤ n ∧ n ≤ requested

/-! ### What it takes -/

/-- The header of a successful reply reports no negative length, and for an OUT transfer none above
the one requested. -/
def Awaited.Minds (w : Awaited) (reply : List UInt8) : Prop :=
  ∀ ret rest, readn usbipHdrLen reply = some (ret, rest) →
    int32 (word ret usbipRetStatusOff) = 0 →
      0 ≤ int32 (word ret usbipRetActualOff) ∧
        (w.dir = usbIn ∨ int32 (word ret usbipRetActualOff) ≤ w.len)

namespace AwaitedIso

/-- The reply is there as a whole, with its data and packet descriptors, and there is memory for
both. -/
structure Whole (env : ClientEnv) (w : AwaitedIso) (reply ret data rd : List UInt8) : Prop where
  parts : ret ++ (data ++ rd) <+: reply
  ret_length : ret.length = usbipHdrLen
  data_length : data.length = if w.dir = usbIn then (word ret usbipRetActualOff).toNat else 0
  rd_length : rd.length = (int32 (word ret usbipRetNumpktsOff)).toNat * usbipIsoDescLen
  data_malloc : data ≠ [] → env.malloc data.length
  rd_malloc : rd ≠ [] → env.malloc rd.length

/-- What an honest peer says in a reply with `actual` bytes of data and the descriptors `descs`. -/
structure Honest (env : ClientEnv) (w : AwaitedIso) (status : Int) (actual : UInt32)
    (descs : List IsoPkt) : Prop where
  /-- the offset of a descriptor is an `int` -/
  few : descs.length ≤ 2 ^ 27
  /-- the packets share the data of an IN reply -/
  shared : w.dir = usbIn → 0 < actual →
    (descs.map fun pkt => pkt.actualLength.toNat).sum ≤ actual.toNat
  /-- they go where the caller has slots -/
  placed : w.dir = usbIn → 0 < actual →
    ∀ pkt ∈ descs, ∀ x, pkt.Taken x → ∃ slot ∈ w.pkts, slot.Slot x
  /-- a capture records the front of the buffer, which they cover -/
  captured : w.dir = usbIn → env.Captures (int32 actual) →
    ∀ x, x < actual.toNat → ∃ pkt ∈ descs, pkt.Taken x
  reported : status = 0 → actual.toNat < 2 ^ 31 ∧ actual.toNat ≤ w.total

def Minds (env : ClientEnv) (w : AwaitedIso) (reply : List UInt8) : Prop :=
  ∀ ret data rd, w.Whole env reply ret data rd →
    w.Honest env (int32 (word ret usbipRetStatusOff)) (word ret usbipRetActualOff)
      ((isoDescs (int32 (word ret usbipRetNumpktsOff)).toNat rd).take w.pkts.length)

end AwaitedIso

def Waiting.Minds (env : ClientEnv) : Waiting → List UInt8 → Prop
  | submit w, reply => w.Minds reply
  | submitIso w, reply => w.Minds env reply

/-! ### Captures -/

theorem clientStatusError_neg (status : Int) : clientStatusError status < 0 := by
  unfold clientStatusError
  split <;> decide

section

variable {env : ClientEnv} {own arrived : Nat → Prop} {reply : List UInt8}

theorem pcapPacket_contained {data : Bool} {n : Int} :
    Contained own arrived (pcapPacket env data n) ↔
      (data → env.Captures n → ∀ x, x < n.toNat → arrived x) := by
  unfold pcapPacket
  split
  · rename_i h
    simp [Contained, Touch.Puts, Touch.Reads, h.1, h.2]
  · rename_i h
    exact ⟨fun _ hd hc => absurd ⟨hd, hc⟩ h, fun _ => trivial⟩

/-- The endpoint types are learnt from the configuration that has been received. -/
theorem pcapEpmapLearn_within (cfg : List UInt8) (i : Nat) :
    ∀ t ∈ pcapEpmapLearn cfg i, ∃ off n, t = .look off n ∧ off + n ≤ cfg.length := by
  fun_induction pcapEpmapLearn cfg i with
  | case1 i hi blen hz => grind
  | case2 i hi blen hz hep ih => grind
  | case3 i hi blen hz hep ih => grind
  | case4 i hi => simp

theorem pcapEpmapLearn_contained (cfg : List UInt8) (h : ∀ x, x < cfg.length → arrived x) :
    Contained own arrived (pcapEpmapLearn cfg 0) := by
  have hlooks := pcapEpmapLearn_within cfg 0
  refine (Contained.reads_iff fun t ht x hx => ?_).mpr fun t ht => ?_
  · obtain ⟨off, n, rfl, -⟩ := hlooks t ht
    exact hx
  · obtain ⟨off, n, rfl, hn⟩ := hlooks t ht
    exact fun x _ hx => h x (by omega)

/-! ### A plain transfer -/

namespace Awaited

variable {w : Awaited} {status act : Int} {got : List UInt8}

theorem finish_contained (hlen : got.length ≤ w.len)
    (hgot : w.dir = usbIn → 0 < act → act.toNat ≤ got.length) :
    Contained (· < w.len) (fun _ => False) (w.finish env status act got).touches := by
  refine ⟨fun x (hx : x < got.length) => by omega, trivial, ?_⟩
  have harr : ∀ x, x < got.length → False ∨ (Touch.fill got).Puts x := fun x hx => .inr hx
  rw [Contained.append_iff]
  constructor
  · split
    · exact pcapEpmapLearn_contained got harr
    · trivial
  · rw [pcapPacket_contained]
    intro hdata _ x hx
    obtain ⟨hin, hpos⟩ := of_decide_eq_true hdata
    rw [if_pos hin] at hx
    have := hgot hin hpos
    exact .inl (harr x (by omega))

/-- Whatever the reply says, no byte outside the buffer is written, and none that has not arrived is
read. -/
theorem complete_contained (env : ClientEnv) (w : Awaited) (reply : List UInt8) :
    Contained (· < w.len) (fun _ => False) (w.complete env reply).touches := by
  have hfill : ∀ {bytes : List UInt8}, bytes.length ≤ w.len →
      Contained (· < w.len) (fun _ => False) [Touch.fill bytes] := fun h =>
    ⟨fun x (hx : x < _) => by omega, trivial, trivial⟩
  unfold complete
  cases hret : readn usbipHdrLen reply with
  | none => trivial
  | some cut =>
    obtain ⟨ret, s⟩ := cut
    simp only
    generalize int32 (word ret usbipRetActualOff) = act
    split
    · rename_i hin
      cases hgot : readn (min act w.len).toNat s with
      | none =>
        -- what came before the end of the stream is in the buffer
        have : s.length < (min act w.len).toNat := by
          by_contra hlt
          rw [readn, if_neg hlt] at hgot
          cases hgot
        exact hfill (by omega)
      | some cut =>
        obtain ⟨got, s'⟩ := cut
        have hlen := (readn_eq_some hgot).2
        simp only
        split
        · exact hfill (by omega)
        · exact finish_contained (by omega) fun _ _ => by omega
    · rename_i hin
      exact finish_contained (Nat.zero_le _) fun hd hpos => absurd ⟨hd, hpos⟩ hin

/-- The length is the one received or the one of the buffer, except for what the header says of an
OUT transfer, or in a negative number. -/
theorem complete_reported (env : ClientEnv) (w : Awaited) (reply : List UInt8) :
    ((w.complete env reply).rc < 0 ∨
      ∃ n ∈ (w.complete env reply).actual, 0 ≤ n ∧ n ≤ w.len) ↔ w.Minds reply := by
  have hio : usbErrorIo < 0 := by decide
  unfold complete Minds
  cases hret : readn usbipHdrLen reply with
  | none => exact iff_of_true (.inl hio) fun ret rest h => nomatch h
  | some cut =>
    obtain ⟨ret, s⟩ := cut
    have hhead : ∀ P : List UInt8 → Prop,
        (∀ ret' rest, some (ret, s) = some (ret', rest) → P ret') ↔ P ret := fun P =>
      ⟨fun h => h ret s rfl, fun h ret' rest heq => by cases heq; exact h⟩
    rw [hhead fun ret => int32 (word ret usbipRetStatusOff) = 0 →
      0 ≤ int32 (word ret usbipRetActualOff) ∧
        (w.dir = usbIn ∨ int32 (word ret usbipRetActualOff) ≤ w.len)]
    simp only
    generalize int32 (word ret usbipRetActualOff) = act
    generalize int32 (word ret usbipRetStatusOff) = status
    have hfinish : ∀ n got, ((w.finish env status n got).rc < 0 ∨
        ∃ m ∈ (w.finish env status n got).actual, 0 ≤ m ∧ m ≤ w.len) ↔
          (status = 0 → 0 ≤ n ∧ n ≤ w.len) := by
      intro n got
      by_cases hs : status = 0
      · simp [finish, hs, usbSuccess]
      · simp [finish, hs, clientStatusError_neg]
    split
    · rename_i hin
      have hminds : status = 0 → 0 ≤ act ∧ (w.dir = usbIn ∨ act ≤ w.len) := fun _ =>
        ⟨by omega, .inl hin.1⟩
      refine iff_of_true ?_ hminds
      split
      · exact .inl hio
      · split
        · exact .inl hio
        · exact (hfinish _ _).mpr fun _ => by omega
    · rename_i hin
      rw [hfinish]
      refine imp_congr_right fun _ => and_congr_right fun hact => ?_
      constructor
      · exact .inr
      · rintro (hd | hle)
        · have : ¬0 < act := fun hpos => hin ⟨hd, hpos⟩
          omega
        · exact hle

end Awaited

/-! ### An isochronous transfer -/

namespace AwaitedIso

variable {w : AwaitedIso} {tmp : Option (List UInt8)} {data rd : List UInt8}

/-- The descriptors from the `i`th on. -/
def descsFrom (rd : List UInt8) (n i : Nat) : List IsoPkt :=
  (List.range' i n).map fun k => isoDescParse (recordAt usbipIsoDescLen rd k)

theorem descsFrom_succ (rd : List UInt8) (n i : Nat) :
    descsFrom rd (n + 1) i =
      isoDescParse (recordAt usbipIsoDescLen rd i) :: descsFrom rd n (i + 1) := by
  rw [descsFrom, List.range'_succ, List.map_cons]
  rfl

theorem take_isoDescs (rd : List UInt8) (np n : Nat) :
    (isoDescs np rd).take n = descsFrom rd (min np n) 0 := by
  rw [isoDescs, ← List.map_take, List.take_range, descsFrom, List.range_eq_range', Nat.min_comm]

/-- The descriptor `k` is read where it lies. -/
def LoadOk (rd : List UInt8) (k : Nat) : Prop :=
  let off := int32 (.ofNat (k * usbipIsoDescLen))
  0 ≤ off ∧ off + usbipIsoDescLen ≤ rd.length

theorem loadOk_iff {np n : Nat} (hrd : rd.length = np * usbipIsoDescLen) (hn : n ≤ np) :
    (∀ k, k < n → LoadOk rd k) ↔ n ≤ 2 ^ 27 := by
  have hoff : ∀ k, k ≤ 2 ^ 27 →
      int32 (.ofNat (k * 16)) = if k < 2 ^ 27 then (k * 16 : Int) else -2 ^ 31 := fun k hk =>
    isoDescOff_eq hk
  simp only [usbipIsoDescLen] at hrd
  constructor
  · intro h
    by_contra hlt
    have hload := (h (2 ^ 27) (by omega)).1
    rw [usbipIsoDescLen, hoff _ (Nat.le_refl _), if_neg (Nat.lt_irrefl _)] at hload
    omega
  · intro hle k hk
    simp only [LoadOk, usbipIsoDescLen]
    rw [hoff k (by omega), if_pos (by omega)]
    omega

/-- Without data the loop only reads the descriptors. -/
theorem scatter_none (n i : Nat) (cum : UInt32) :
    (w.scatter none rd n i cum).1 =
      (List.range' i n).map fun k =>
        .load rd (int32 (.ofNat (k * usbipIsoDescLen))) usbipIsoDescLen := by
  induction n generalizing i cum with
  | zero => rfl
  | succ n ih => rw [scatter, List.range'_succ, List.map_cons, ih, copyPacket, List.nil_append]

theorem copyPacket_puts (hin : w.dir = usbIn) (pkt : IsoPkt) (cum : UInt32) (x : Nat) :
    (∃ t ∈ (w.copyPacket (some data) pkt cum).1, t.Puts x) ↔ pkt.Taken x := by
  unfold copyPacket
  simp only [hin, true_and]
  split
  · simp [Touch.Puts, IsoPkt.Taken]
  · rename_i hz
    rw [IsoPkt.Taken, Decidable.not_not.mp hz]
    simp

/-- What the loop writes. -/
theorem scatter_puts (hin : w.dir = usbIn) (n i : Nat) (cum : UInt32) (x : Nat) :
    (∃ t ∈ (w.scatter (some data) rd n i cum).1, t.Puts x) ↔
      ∃ pkt ∈ descsFrom rd n i, pkt.Taken x := by
  induction n generalizing i cum with
  | zero => simp [scatter, descsFrom]
  | succ n ih =>
    rw [scatter, descsFrom_succ, ← List.singleton_append]
    simp only [List.mem_append, or_and_right, exists_or, copyPacket_puts hin, ih, List.mem_cons]
    simp [Touch.Puts]

/-- A packet is copied inside its block and to where it belongs, and the block has its bytes when
the next one is looked for. -/
theorem copyPacket_contained (hin : w.dir = usbIn) (pkt : IsoPkt)
    {cum : UInt32} (hcum : cum.toNat ≤ data.length) :
    Contained own arrived (w.copyPacket (some data) pkt cum).1 ↔
      (∀ x, pkt.Taken x → own x) ∧ cum.toNat + pkt.actualLength.toNat ≤ data.length := by
  unfold copyPacket
  simp only [hin, true_and]
  split
  · simp [Contained, Touch.Puts, Touch.Reads, IsoPkt.Taken]
  · rename_i hz
    simpa [Contained, IsoPkt.Taken, Decidable.not_not.mp hz] using hcum

theorem copyPacket_cum (data : List UInt8) (hin : w.dir = usbIn) (pkt : IsoPkt) {cum : UInt32}
    (h : cum.toNat + pkt.actualLength.toNat < 2 ^ 32) :
    (w.copyPacket (some data) pkt cum).2.toNat = cum.toNat + pkt.actualLength.toNat := by
  unfold copyPacket
  simp only [hin, true_and]
  split
  · rw [UInt32.toNat_add, Nat.mod_eq_of_lt h]
  · rename_i hz
    rw [Decidable.not_not.mp hz]
    rfl

/-- The loop keeps to the caller's slots and to the data exactly when the packets do. -/
theorem scatter_contained (hin : w.dir = usbIn) (hdata : data.length < 2 ^ 32) (n i : Nat)
    (cum : UInt32) (hcum : cum.toNat ≤ data.length) :
    Contained own arrived (w.scatter (some data) rd n i cum).1 ↔
      (∀ k ∈ List.range' i n, LoadOk rd k) ∧
      cum.toNat + ((descsFrom rd n i).map fun pkt => pkt.actualLength.toNat).sum ≤ data.length ∧
      ∀ pkt ∈ descsFrom rd n i, ∀ x, pkt.Taken x → own x := by
  induction n generalizing i cum arrived with
  | zero => simp [scatter, descsFrom, Contained, hcum]
  | succ n ih =>
    rw [scatter, descsFrom_succ, List.range'_succ]
    generalize isoDescParse (recordAt usbipIsoDescLen rd i) = pkt
    rw [Contained, Contained.append_iff, copyPacket_contained hin pkt hcum]
    simp only [List.forall_mem_cons, List.map_cons, List.sum_cons]
    have hload : ∀ arrived, (Touch.load rd (int32 (.ofNat (i * usbipIsoDescLen)))
      usbipIsoDescLen).Reads arrived ↔ LoadOk rd i := fun _ => Iff.rfl
    by_cases hroom : cum.toNat + pkt.actualLength.toNat ≤ data.length
    · have hnext : (w.copyPacket (some data) pkt cum).2.toNat =
          cum.toNat + pkt.actualLength.toNat :=
        copyPacket_cum data hin pkt (by omega)
      rw [ih _ _ (by omega), hnext, hload]
      simp only [Touch.Puts, false_implies, implies_true, true_and, hroom, and_true, Nat.add_assoc]
      tauto
    · have : ¬cum.toNat + (pkt.actualLength.toNat +
          ((descsFrom rd n (i + 1)).map fun pkt => pkt.actualLength.toNat).sum) ≤ data.length := by
        omega
      simp [hroom, this]

theorem loads_iff {np n : Nat} (hrd : rd.length = np * usbipIsoDescLen) (hn : n ≤ np) :
    (∀ k ∈ List.range' 0 n, LoadOk rd k) ↔ (descsFrom rd n 0).length ≤ 2 ^ 27 := by
  rw [descsFrom, List.length_map, List.length_range', ← loadOk_iff hrd hn]
  exact forall_congr' fun k => by rw [List.mem_range'_1]; simp

theorem captures_pos {actual : UInt32} (h : env.Captures (int32 actual)) :
    0 < actual ∧ (int32 actual).toNat = actual.toNat := by
  have hpos : 0 < int32 actual := h.2.1
  have hlt : actual.toNat < 2 ^ 31 := by
    have := actual.toNat_lt
    rw [int32_eq] at hpos
    split at hpos <;> omega
  rw [int32_eq, if_pos hlt] at hpos
  exact ⟨UInt32.lt_iff_toNat_lt.mpr (by simpa using hpos), int32_toNat hlt⟩

/-- The touches of a reply with data. -/
theorem finish_contained_data (env : ClientEnv) (own : Nat → Prop) (status : Int)
    {actual : UInt32} {np n : Nat} (hin : w.dir = usbIn) (hpos : 0 < actual) (hdata : data.length = actual.toNat)
    (hrd : rd.length = np * usbipIsoDescLen) (hn : n ≤ np) :
    Contained own (fun _ => False)
        (w.finish env status actual (w.scatter (some data) rd n 0 0)).touches ↔
      (descsFrom rd n 0).length ≤ 2 ^ 27 ∧
      ((descsFrom rd n 0).map fun pkt => pkt.actualLength.toNat).sum ≤ actual.toNat ∧
      (∀ pkt ∈ descsFrom rd n 0, ∀ x, pkt.Taken x → own x) ∧
      (env.Captures (int32 actual) →
        ∀ x, x < actual.toNat → ∃ pkt ∈ descsFrom rd n 0, pkt.Taken x) := by
  have hlt := actual.toNat_lt
  rw [finish, Contained.append_iff, scatter_contained hin (by omega) n 0 0 (Nat.zero_le _),
    pcapPacket_contained, loads_iff hrd hn, hdata, if_pos hin]
  simp only [scatter_puts hin, hin, hpos, and_self, decide_true, forall_const, false_or,
    UInt32.toNat_zero, Nat.zero_add, and_assoc]
  refine and_congr_right fun _ => and_congr_right fun _ => and_congr_right fun _ => ?_
  exact forall_congr' fun hcap => by rw [(captures_pos hcap).2]

/-- The touches of a reply without data: its descriptors are read. -/
theorem finish_contained_none (env : ClientEnv) (own : Nat → Prop) (status : Int)
    {actual : UInt32} {np n : Nat}
    (hno : ¬(w.dir = usbIn ∧ 0 < actual)) (hrd : rd.length = np * usbipIsoDescLen) (hn : n ≤ np) :
    Contained own (fun _ => False)
        (w.finish env status actual (w.scatter none rd n 0 0)).touches ↔
      (descsFrom rd n 0).length ≤ 2 ^ 27 := by
  rw [finish, Contained.append_iff, pcapPacket_contained, decide_eq_false hno, scatter_none,
    Contained.reads_iff (by simp [Touch.Puts]), List.forall_mem_map, ← loads_iff hrd hn]
  exact and_iff_left fun h => absurd h Bool.false_ne_true

theorem finish_reported (status : Int) (actual : UInt32) (scattered : List Touch × List IsoPkt) :
    ((w.finish env status actual scattered).rc < 0 ∨
      ∃ n ∈ (w.finish env status actual scattered).actual, 0 ≤ n ∧ n ≤ w.total) ↔
      (status = 0 → actual.toNat < 2 ^ 31 ∧ actual.toNat ≤ w.total) := by
  by_cases hs : status = 0
  · have hlt := actual.toNat_lt
    simp only [finish, hs, usbSuccess, Option.mem_some_iff, exists_eq_left', int32_eq]
    split <;> simp <;> omega
  · simp [finish, hs, clientStatusError_neg]

/-- The end of a call whose reply has come in whole. -/
theorem finish_sound_iff {status : Int} {actual : UInt32} {np : Nat}
    (hdata : data.length = if w.dir = usbIn then actual.toNat else 0)
    (hrd : rd.length = np * usbipIsoDescLen) :
    (w.finish env status actual
        (w.scatter (if w.dir = usbIn ∧ 0 < actual then some data else none) rd
          (min np w.pkts.length) 0 0)).Sound
      (Waiting.Own (.submitIso w)) w.total ↔
    w.Honest env status actual ((isoDescs np rd).take w.pkts.length) := by
  have hn : min np w.pkts.length ≤ np := Nat.min_le_left _ _
  rw [take_isoDescs]
  by_cases hin : w.dir = usbIn ∧ 0 < actual
  · obtain ⟨hdir, hpos⟩ := hin
    rw [if_pos ⟨hdir, hpos⟩]
    rw [if_pos hdir] at hdata
    have hcont := finish_contained_data env (Waiting.Own (.submitIso w)) status hdir hpos hdata hrd
      hn
    constructor
    · rintro ⟨hc, hr⟩
      obtain ⟨hfew, hshared, hplaced, hcap⟩ := hcont.mp hc
      exact ⟨hfew, fun _ _ => hshared, fun _ _ => hplaced, fun _ => hcap,
        (finish_reported ..).mp hr⟩
    · intro h
      exact ⟨hcont.mpr ⟨h.few, h.shared hdir hpos, h.placed hdir hpos, h.captured hdir⟩,
        (finish_reported ..).mpr h.reported⟩
  · rw [if_neg hin]
    have hcont := finish_contained_none env (Waiting.Own (.submitIso w)) status hin hrd hn
    constructor
    · rintro ⟨hc, hr⟩
      exact ⟨hcont.mp hc, fun hd hpos => absurd ⟨hd, hpos⟩ hin, fun hd hpos => absurd ⟨hd, hpos⟩ hin,
        fun hd hcap => absurd ⟨hd, (captures_pos hcap).1⟩ hin, (finish_reported ..).mp hr⟩
    · intro h
      exact ⟨hcont.mpr h.few, (finish_reported ..).mpr h.reported⟩

/-- The data of a whole reply. -/
theorem readTmp_append {actual : UInt32} (rest : List UInt8)
    (hdata : data.length = if w.dir = usbIn then actual.toNat else 0)
    (hmalloc : data ≠ [] → env.malloc data.length) :
    w.readTmp env actual (data ++ rest) =
      some (if w.dir = usbIn ∧ 0 < actual then some data else none, rest) := by
  unfold readTmp
  by_cases hin : w.dir = usbIn ∧ 0 < actual
  · rw [if_pos hin.1] at hdata
    have hne : data ≠ [] := by
      have := UInt32.lt_iff_toNat_lt.mp hin.2
      exact List.ne_nil_of_length_pos (hdata ▸ this)
    rw [if_pos hin, if_pos hin, ← hdata, if_pos (hmalloc hne), readn_append]
    rfl
  · have : data = [] := by
      by_cases hd : w.dir = usbIn
      · have : actual = 0 := by
          by_contra hne
          exact hin ⟨hd, UInt32.pos_iff_ne_zero.mpr hne⟩
        rw [if_pos hd, this] at hdata
        exact List.eq_nil_of_length_eq_zero hdata
      · rw [if_neg hd] at hdata
        exact List.eq_nil_of_length_eq_zero hdata
    rw [if_neg hin, if_neg hin, this]
    rfl

theorem of_readTmp {actual : UInt32} {s s' : List UInt8}
    (h : w.readTmp env actual s = some (tmp, s')) :
    ∃ data, s = data ++ s' ∧ data.length = (if w.dir = usbIn then actual.toNat else 0) ∧
      (data ≠ [] → env.malloc data.length) := by
  unfold readTmp at h
  split at h
  · rename_i hin
    split at h
    · rename_i hm
      obtain ⟨got, hread, hgot⟩ := Option.map_eq_some_iff.mp h
      cases hgot
      obtain ⟨hs, hlen⟩ := readn_eq_some hread
      exact ⟨got.1, hs, by rw [hlen, if_pos hin.1], fun _ => hlen ▸ hm⟩
    · cases h
  · rename_i hin
    cases h
    refine ⟨[], rfl, ?_, fun hne => absurd rfl hne⟩
    by_cases hd : w.dir = usbIn
    · have : actual = 0 := by
        by_contra hne
        exact hin ⟨hd, UInt32.pos_iff_ne_zero.mpr hne⟩
      rw [if_pos hd, this]
      rfl
    · rw [if_neg hd]
      rfl

theorem complete_whole {reply ret : List UInt8} (h : w.Whole env reply ret data rd) :
    w.complete env reply =
      w.finish env (int32 (word ret usbipRetStatusOff)) (word ret usbipRetActualOff)
        (w.scatter (if w.dir = usbIn ∧ 0 < word ret usbipRetActualOff then some data else none) rd
          (min (int32 (word ret usbipRetNumpktsOff)).toNat w.pkts.length) 0 0) := by
  obtain ⟨rest, rfl⟩ := h.parts
  have hlen := h.rd_length
  rw [complete, List.append_assoc, ← h.ret_length, readn_append]
  simp only [List.append_assoc]
  rw [readTmp_append _ h.data_length h.data_malloc]
  simp only
  by_cases hnp : 0 < int32 (word ret usbipRetNumpktsOff)
  · have hne : rd ≠ [] := List.ne_nil_of_length_pos (by simp only [usbipIsoDescLen] at hlen; omega)
    rw [if_pos hnp, ← hlen, if_pos (h.rd_malloc hne), readn_append]
  · have hz : (int32 (word ret usbipRetNumpktsOff)).toNat = 0 := by omega
    rw [if_neg hnp, hz, Nat.zero_min]
    rfl

/-- A reply that is not whole is an error, and leaves the buffer alone. -/
theorem complete_broken {reply : List UInt8}
    (h : ∀ ret data rd, ¬w.Whole env reply ret data rd) :
    w.complete env reply = ⟨[], usbErrorIo, none, w.pkts⟩ := by
  unfold complete
  cases hret : readn usbipHdrLen reply with
  | none => rfl
  | some cut =>
    obtain ⟨ret, s⟩ := cut
    obtain ⟨rfl, hrlen⟩ := readn_eq_some hret
    simp only
    cases htmp : w.readTmp env (word ret usbipRetActualOff) s with
    | none => rfl
    | some cut =>
      obtain ⟨tmp, s'⟩ := cut
      obtain ⟨data, rfl, hdata, hmalloc⟩ := of_readTmp htmp
      have hwhole : ∀ rd rest, s' = rd ++ rest →
          rd.length = (int32 (word ret usbipRetNumpktsOff)).toNat * usbipIsoDescLen →
          ¬(rd ≠ [] → env.malloc rd.length) := by
        rintro rd rest rfl hrd hm
        exact h ret data rd
          ⟨⟨rest, by simp only [List.append_assoc]⟩, hrlen, hdata, hrd, hmalloc, hm⟩
      simp only
      split
      · split
        · rename_i hm
          cases hrd : readn ((int32 (word ret usbipRetNumpktsOff)).toNat * usbipIsoDescLen) s' with
          | none => rfl
          | some cut =>
            obtain ⟨rfl, hlen⟩ := readn_eq_some hrd
            exact absurd (fun _ => hlen ▸ hm) (hwhole cut.1 cut.2 rfl hlen)
        · rfl
      · rename_i hnp
        have hz : (int32 (word ret usbipRetNumpktsOff)).toNat = 0 := by omega
        exact absurd (fun hne => absurd rfl hne) (hwhole [] s' rfl (by rw [hz, Nat.zero_mul]; rfl))

end AwaitedIso

end

/-- Whatever transfer waits, and whatever comes as its reply: the client keeps to the buffer, to
what it has received, and to the length requested, exactly when the reply says nothing else. -/
theorem sound_iff_minds (env : ClientEnv) (w : Waiting) (reply : List UInt8) :
    (w.complete env reply).Sound w.Own w.requested ↔ w.Minds env reply := by
  cases w with
  | submit w =>
    constructor
    · intro h
      exact (w.complete_reported env reply).mp h.reported
    · intro h
      exact ⟨w.complete_contained env reply, (w.complete_reported env reply).mpr h⟩
  | submitIso w =>
    constructor
    · intro h ret data rd hwhole
      refine (AwaitedIso.finish_sound_iff hwhole.data_length hwhole.rd_length).mp ?_
      rw [← AwaitedIso.complete_whole hwhole]
      exact h
    · intro h
      by_cases hsome : ∃ ret data rd, w.Whole env reply ret data rd
      · obtain ⟨ret, data, rd, hwhole⟩ := hsome
        refine Eq.subst (AwaitedIso.complete_whole hwhole).symm ?_
        exact (AwaitedIso.finish_sound_iff hwhole.data_length hwhole.rd_length).mpr
          (h ret data rd hwhole)
      · have hbroken : w.complete env reply = ⟨[], usbErrorIo, none, w.pkts⟩ :=
          AwaitedIso.complete_broken fun ret data rd hwhole => hsome ⟨ret, data, rd, hwhole⟩
        refine Eq.subst hbroken.symm ?_
        exact ⟨trivial, .inl (by decide : usbErrorIo < 0)⟩

/-- An IN transfer of one packet, with a slot of eight bytes at the front of the buffer. -/
def AwaitedIso.onePacket : AwaitedIso where
  dir := usbIn
  pkts := [⟨0, 8, 0, 0⟩]
  npkts := by decide

/-- A reply of one byte, which the peer puts at offset 100. -/
def strayReply : List UInt8 :=
  putBe32 (putBe32 (putBasicHdr usbipRetSubmit 1 0x10002 usbIn 1) usbipRetActualOff 1)
      usbipRetNumpktsOff 1 ++ (7 :: isoDescPack ⟨100, 4, 1, 0⟩)

/-- The byte is written there. -/
theorem sound_fails :
    ¬∀ (env : ClientEnv) (w : Waiting) (reply : List UInt8),
      (w.complete env reply).Sound w.Own w.requested := by
  intro h
  have hsound := (h ⟨false, fun _ => true⟩ (.submitIso .onePacket) strayReply).contained
  have htouches : ((Waiting.submitIso .onePacket).complete ⟨false, fun _ => true⟩
      strayReply).touches =
      [.load (isoDescPack ⟨100, 4, 1, 0⟩) 0 16, .copy [7] 0 100 1] := by decide
  rw [htouches] at hsound
  obtain ⟨slot, hslot, hx⟩ := hsound.2.2.1 100 ⟨Nat.le_refl _, by decide⟩
  rw [AwaitedIso.onePacket, List.mem_singleton] at hslot
  subst hslot
  exact absurd hx.2 (by decide)

end Usbip.Wire
