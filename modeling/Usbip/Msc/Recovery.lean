import Usbip.Endpoint.Alone
import Usbip.Control.Reply
import Usbip.Msc.Bot

/-! A mass-storage function on its two bulk endpoints, and what Reset Recovery leaves on them.  The
host's requests are served one after the other, each to its end. -/

namespace Usbip.Msc

open Lib Control

/-- "USBS" -/
def cswSig : List UInt8 := [0x55, 0x53, 0x42, 0x53]

/-- The bytes of `msc_csw`. -/
def cswBytes (tag : List UInt8) (residue : UInt32) (status : UInt8) : List UInt8 :=
  cswSig ++ tag ++ u32le residue ++ [status]

/-- A reply that the host read on the IN pipe, and the number of the CBW that its bytes come from.
-/
structure Read where
  cbw : Nat
  bytes : List UInt8
  deriving DecidableEq, Repr

/-- The function with its pipes. The chunks that it takes for a CBW are numbered, and each queued
buffer has the number of the one that produced it. -/
structure MscDevice where
  msc : MscState
  inEp : EpState
  outEp : EpState
  cbws : Nat
  /-- the CBW of the write in flight -/
  writer : Nat
  /-- one for each buffer of `inEp.inq` -/
  queued : List Nat
  reads : List Read

/-- The pipes as `msc_build` leaves them. -/
def MscDevice.attach (msc : MscState) : MscDevice :=
  { msc, inEp := .new false, outEp := .new true, cbws := 0, writer := 0, queued := [], reads := [] }

/-- What the host does. -/
inductive HostAct
  /-- a URB on the bulk OUT endpoint, with the backend while it is served -/
  | bulkOut (urb : Urb) (env : Env)
  | bulkIn (urb : Urb)
  | unlink (seqnum : UInt32)
  /-- a request that the core hands to the function -/
  | control (setup : Setup)
  /-- `SET_FEATURE` and `CLEAR_FEATURE` of the halt of a bulk endpoint -/
  | setHalt (dir : Dir)
  | clearHalt (dir : Dir)
  | setConfiguration

namespace MscDevice

variable (d : MscDevice)

/-- What a section of the IN endpoint sends, as the host reads it. -/
def sent (cbw : Nat) (events : List EpEvent) : List Read := events.map fun e => ⟨cbw, e.sent⟩

/-- `usbip_device_write` on the IN pipe for the CBW of a number. -/
def put (cbw : Nat) (bytes : List UInt8) : MscDevice :=
  let (ep, events) := d.inEp.writeAlone bytes
  { d with
    inEp := ep
    queued := d.queued ++ List.replicate (ep.inq.length - d.inEp.inq.length) cbw
    reads := d.reads ++ sent cbw events }

def stallPipe : Dir → MscDevice
  | .usbIn => { d with inEp := d.inEp.stallAlone.1 }
  | .usbOut => { d with outEp := d.outEp.stallAlone.1 }

def clearPipe : Dir → MscDevice
  | .usbIn => { d with inEp := { d.inEp with halted := false } }
  | .usbOut => { d with outEp := { d.outEp with halted := false } }

def emit (cbw : Nat) : Event → MscDevice
  | .csw tag residue status => d.put cbw (cswBytes tag residue status)
  | .dataIn bytes => d.put cbw bytes
  | .stall dir => d.stallPipe dir
  | .stored _ | .read .. | .write .. => d

/-- The number of the CBW that a chunk is, or belongs to. -/
def number : Nat := if d.msc.writing then d.writer else d.cbws + 1

/-- `msc_on_out`. -/
def onOut (chunk : List UInt8) (env : Env) : MscDevice :=
  let (msc, events) := d.msc.onOut chunk env
  events.foldl (fun d' event => d'.emit d.number event)
    { d with msc, cbws := if d.msc.writing then d.cbws else d.cbws + 1, writer := d.number }

/-- A URB on the OUT endpoint, which calls `on_out` unless the endpoint is halted. -/
def bulkOut (urb : Urb) (env : Env) : MscDevice :=
  let (ep, events) := d.outEp.dispatchAlone { urb with direction := .usbOut }
  events.foldl (fun d event =>
    match event with
    | .onOut data => d.onOut data env
    | _ => d) { d with outEp := ep }

/-- A URB on the IN endpoint: bytes of the first buffer, or parking. -/
def bulkIn (urb : Urb) : MscDevice :=
  let (ep, events) := d.inEp.dispatchAlone { urb with direction := .usbIn }
  { d with
    inEp := ep
    queued := d.queued.drop (d.inEp.inq.length - ep.inq.length)
    reads := d.reads ++ sent (d.queued.headD 0) events }

def act : HostAct → MscDevice
  | .bulkOut urb env => d.bulkOut urb env
  | .bulkIn urb => d.bulkIn urb
  | .unlink seqnum => { d with inEp := { d.inEp with pend := (d.inEp.pend.unlink seqnum).1 } }
  | .control setup => { d with msc := (d.msc.control setup).state }
  | .setHalt dir => d.stallPipe dir
  | .clearHalt dir => d.clearPipe dir
  | .setConfiguration => (d.clearPipe .usbIn).clearPipe .usbOut

def run (acts : List HostAct) : MscDevice := acts.foldl act d

/-- The other pipe. -/
def other : Dir → Dir
  | .usbIn => .usbOut
  | .usbOut => .usbIn

/-- The Bulk-Only Mass Storage Reset, and then the halts of both pipes in either order. -/
def recover (iface : UInt16) (first : Dir) : MscDevice :=
  d.run [.control ⟨0x21, 0xff, 0, iface, 0⟩, .clearHalt first, .clearHalt (other first)]

/-- What Reset Recovery is for: the next chunk is taken for a CBW, and whatever the host does next,
what it reads comes from a CBW behind the first `n`. -/
structure Clean (n : Nat) : Prop where
  open_ : d.outEp.halted = false
  idle : ∀ chunk env, d.msc.onOut chunk env = match parseCbw chunk with
    | none => (d.msc, [])
    | some cbw => d.msc.command cbw env
  fresh : ∀ acts, ∀ r ∈ (d.run acts).reads.drop d.reads.length, r.bytes ≠ [] → n < r.cbw

/-- Each queued buffer has its number, and numbers behind the first `base` reads meet `P`. -/
structure Numbered (P : Nat → Prop) (base : Nat) : Prop where
  length : d.queued.length = d.inEp.inq.length
  waiting : ∀ b ∈ d.inEp.inq, b.Waiting
  queued : ∀ k ∈ d.queued, P k
  base_le : base ≤ d.reads.length
  reads : ∀ r ∈ d.reads.drop base, r.bytes ≠ [] → P r.cbw

section
variable {d : MscDevice} {P Q : Nat → Prop} {base cbw : Nat}

theorem Numbered.mono (h : d.Numbered P base) (hPQ : ∀ k, P k → Q k) : d.Numbered Q base where
  length := h.length
  waiting := h.waiting
  queued k hk := hPQ k (h.queued k hk)
  base_le := h.base_le
  reads r hr hne := hPQ _ (h.reads r hr hne)

/-- The numbers are about the queue and the reads only. -/
theorem Numbered.congr {d' : MscDevice} (h : d.Numbered P base)
    (hinq : d'.inEp.inq = d.inEp.inq) (hq : d'.queued = d.queued) (hr : d'.reads = d.reads) :
    d'.Numbered P base := by
  obtain ⟨h1, h2, h3, h4, h5⟩ := h
  rw [← hinq, ← hq] at h1
  rw [← hinq] at h2
  rw [← hq] at h3
  rw [← hr] at h4 h5
  exact ⟨h1, h2, h3, h4, h5⟩

/-- More reads, which bring something only under a number that meets `P`. -/
theorem reads_append {reads : List Read} (more : List Read) (hle : base ≤ reads.length)
    (h : ∀ r ∈ reads.drop base, r.bytes ≠ [] → P r.cbw)
    (hmore : ∀ r ∈ more, r.bytes ≠ [] → P r.cbw) :
    base ≤ (reads ++ more).length ∧ ∀ r ∈ (reads ++ more).drop base, r.bytes ≠ [] → P r.cbw := by
  refine ⟨Nat.le_trans hle (by rw [List.length_append]; omega), fun r hr => ?_⟩
  rw [List.drop_append_of_le_length hle, List.mem_append] at hr
  exact hr.elim (h r) (hmore r)

theorem mem_sent {events : List EpEvent} {r : Read} (h : r ∈ sent cbw events) : r.cbw = cbw := by
  obtain ⟨e, -, rfl⟩ := List.mem_map.mp h
  rfl

theorem Numbered.put (h : d.Numbered P base) (hcbw : P cbw) (bytes : List UInt8) :
    (d.put cbw bytes).Numbered P base := by
  have hreads := reads_append (sent cbw (d.inEp.writeAlone bytes).2) h.base_le h.reads
    fun r hr _ => (mem_sent hr).symm ▸ hcbw
  rcases writeAlone_inq d.inEp bytes with hsame | ⟨b, hmore, hb⟩
  · refine ⟨?_, ?_, ?_, hreads.1, hreads.2⟩
    · simp only [MscDevice.put, hsame, Nat.sub_self, List.replicate_zero, List.append_nil]
      exact h.length
    · simp only [MscDevice.put, hsame]
      exact h.waiting
    · simp only [MscDevice.put, hsame, Nat.sub_self, List.replicate_zero, List.append_nil]
      exact h.queued
  · have hone : (d.inEp.inq ++ [b]).length - d.inEp.inq.length = 1 := by
      rw [List.length_append, Nat.add_sub_cancel_left]
      rfl
    refine ⟨?_, ?_, ?_, hreads.1, hreads.2⟩
    · simp only [MscDevice.put, hmore, List.length_append, h.length, List.length_replicate,
        Nat.add_sub_cancel_left]
    · simp only [MscDevice.put, hmore]
      intro b' hb'
      rcases List.mem_append.mp hb' with hb' | hb'
      · exact h.waiting b' hb'
      · rw [List.mem_singleton.mp hb']
        exact hb
    · simp only [MscDevice.put, hmore, hone]
      intro k hk
      rcases List.mem_append.mp hk with hk | hk
      · exact h.queued k hk
      · rw [List.mem_singleton.mp hk]
        exact hcbw

theorem Numbered.stallPipe (h : d.Numbered P base) (dir : Dir) :
    (d.stallPipe dir).Numbered P base := by
  cases dir with
  | usbIn => exact h.congr (stallAlone_inq d.inEp) rfl rfl
  | usbOut => exact h.congr rfl rfl rfl

theorem Numbered.clearPipe (h : d.Numbered P base) (dir : Dir) :
    (d.clearPipe dir).Numbered P base := by
  cases dir <;> exact h.congr rfl rfl rfl

theorem Numbered.emit (h : d.Numbered P base) (hcbw : P cbw) (event : Event) :
    (d.emit cbw event).Numbered P base := by
  cases event with
  | csw tag residue status => exact h.put hcbw _
  | dataIn bytes => exact h.put hcbw bytes
  | stall dir => exact h.stallPipe dir
  | _ => exact h

theorem Numbered.emits (h : d.Numbered P base) (hcbw : P cbw) (events : List Event) :
    (events.foldl (fun d event => d.emit cbw event) d).Numbered P base := by
  induction events generalizing d with
  | nil => exact h
  | cons event events ih => exact ih (h.emit hcbw event)

theorem stallPipe_frame (d : MscDevice) (dir : Dir) : (d.stallPipe dir).msc = d.msc ∧
    (d.stallPipe dir).cbws = d.cbws ∧ (d.stallPipe dir).writer = d.writer ∧
      (d.stallPipe dir).outEp.onOut = d.outEp.onOut := by
  cases dir with
  | usbIn => exact ⟨rfl, rfl, rfl, rfl⟩
  | usbOut => exact ⟨rfl, rfl, rfl, runAlone_onOut _ _⟩

/-- What the function sends leaves its own state and the numbers as they are. -/
theorem emits_frame (d : MscDevice) (cbw : Nat) (events : List Event) :
    let d' := events.foldl (fun d event => d.emit cbw event) d
    d'.msc = d.msc ∧ d'.cbws = d.cbws ∧ d'.writer = d.writer ∧
      d'.outEp.onOut = d.outEp.onOut := by
  induction events generalizing d with
  | nil => exact ⟨rfl, rfl, rfl, rfl⟩
  | cons event events ih =>
    have hone : (d.emit cbw event).msc = d.msc ∧ (d.emit cbw event).cbws = d.cbws ∧
        (d.emit cbw event).writer = d.writer ∧
          (d.emit cbw event).outEp.onOut = d.outEp.onOut := by
      cases event with
      | stall dir => exact stallPipe_frame d dir
      | _ => exact ⟨rfl, rfl, rfl, rfl⟩
    obtain ⟨h1, h2, h3, h4⟩ := ih (d.emit cbw event)
    exact ⟨h1.trans hone.1, h2.trans hone.2.1, h3.trans hone.2.2.1, h4.trans hone.2.2.2⟩

theorem Numbered.onOut (h : d.Numbered P base) (hnum : P d.number) (chunk : List UInt8)
    (env : Env) : (d.onOut chunk env).Numbered P base := by
  refine Numbered.emits (d := { d with
    msc := (d.msc.onOut chunk env).1
    cbws := if d.msc.writing then d.cbws else d.cbws + 1
    writer := d.number }) ?_ hnum _
  exact h.congr rfl rfl rfl

theorem onOut_frame (d : MscDevice) (chunk : List UInt8) (env : Env) :
    (d.onOut chunk env).cbws = (if d.msc.writing then d.cbws else d.cbws + 1) ∧
      (d.onOut chunk env).writer = d.number ∧
        (d.onOut chunk env).outEp.onOut = d.outEp.onOut :=
  (emits_frame _ d.number (d.msc.onOut chunk env).2).2

/-- A URB on the OUT endpoint is refused or is one chunk. -/
theorem bulkOut_cases (d : MscDevice) (hout : d.outEp.onOut = true) (urb : Urb) (env : Env) :
    ∃ ep, ep.onOut = true ∧ (d.bulkOut urb env = { d with outEp := ep } ∨
      d.bulkOut urb env = { d with outEp := ep }.onOut urb.data env) := by
  cases hhalt : d.outEp.halted with
  | true =>
    refine ⟨{ d.outEp with accepted := d.outEp.accepted + 1 }, hout, .inl ?_⟩
    rw [MscDevice.bulkOut, dispatchAlone_halted _ hhalt]
    rfl
  | false =>
    refine ⟨{ d.outEp with accepted := d.outEp.accepted + 1 }, hout, .inr ?_⟩
    rw [MscDevice.bulkOut, dispatchAlone_out _ hhalt rfl hout]
    rfl

/-- A URB on the IN endpoint is refused, parked, or gets bytes of the first buffer. -/
theorem bulkIn_serve {b : Dbuf} {rest : List Dbuf} (hhalt : d.inEp.halted = false)
    (hinq : d.inEp.inq = b :: rest) (urb : Urb) :
    let chunk := capLength urb.length (b.len - b.off)
    let inq := if b.len ≤ b.off + chunk then rest else { b with off := b.off + chunk } :: rest
    d.bulkIn urb = { d with
      inEp := { d.inEp with accepted := d.inEp.accepted + 1, inq }
      queued := d.queued.drop (d.inEp.inq.length - inq.length)
      reads := d.reads ++ [⟨d.queued.headD 0, Slice.bytes ⟨b.data, b.off⟩ chunk⟩] } := by
  have := dispatchAlone_serve { urb with direction := .usbIn } hhalt rfl hinq
  simp only [MscDevice.bulkIn, this]
  rfl

theorem Numbered.bulkIn (h : d.Numbered P base) (urb : Urb) :
    (d.bulkIn urb).Numbered P base := by
  cases hhalt : d.inEp.halted with
  | true =>
    have hreads := reads_append [⟨d.queued.headD 0, []⟩] h.base_le h.reads
      fun r hr hne => by rw [List.mem_singleton.mp hr] at hne; exact absurd rfl hne
    have hdrop : d.queued.drop (d.inEp.inq.length - d.inEp.inq.length) = d.queued := by
      rw [Nat.sub_self, List.drop_zero]
    simp only [MscDevice.bulkIn, dispatchAlone_halted _ hhalt, hdrop]
    exact ⟨h.length, h.waiting, h.queued, hreads.1, hreads.2⟩
  | false =>
    cases hinq : d.inEp.inq with
    | nil =>
      have hdrop : d.queued.drop (d.inEp.inq.length - d.inEp.inq.length) = d.queued := by
        rw [Nat.sub_self, List.drop_zero]
      have hpark := dispatchAlone_park { urb with direction := .usbIn } hhalt rfl hinq
      simp only [MscDevice.bulkIn, hpark, hdrop]
      exact h.congr rfl rfl (List.append_nil _)
    | cons b rest =>
      have hlen := h.length
      rw [hinq] at hlen
      obtain ⟨k, ks, hks⟩ : ∃ k ks, d.queued = k :: ks :=
        List.exists_cons_of_length_eq_add_one hlen
      obtain ⟨hk, hks'⟩ := List.forall_mem_cons.mp (hks ▸ h.queued)
      obtain ⟨hb, hrest⟩ := List.forall_mem_cons.mp (hinq ▸ h.waiting)
      have hread (bytes : List UInt8) := reads_append [⟨k, bytes⟩] h.base_le h.reads
        fun r hr _ => by rw [List.mem_singleton.mp hr]; exact hk
      have hlen' : ks.length = rest.length := by
        rw [hks] at hlen
        exact Nat.succ.inj hlen
      rw [bulkIn_serve hhalt hinq, hks, hinq]
      dsimp only
      split
      · have hone : (b :: rest).length - rest.length = 1 := by
          rw [List.length_cons, Nat.add_sub_cancel_left]
        rw [hone]
        exact ⟨hlen', hrest, hks', (hread _).1, (hread _).2⟩
      · rename_i hmore
        refine ⟨?_, ?_, ?_, (hread _).1, (hread _).2⟩
        · simpa using hlen'
        · exact List.forall_mem_cons.mpr ⟨⟨Int.not_le.mp hmore, hb.2⟩, hrest⟩
        · simpa using ⟨hk, hks'⟩

/-- The requests that leave the queue, the reads and the numbers as they are. -/
theorem Numbered.act_other (h : d.Numbered P base) {a : HostAct}
    (hout : ∀ urb env, a ≠ .bulkOut urb env) : (d.act a).Numbered P base := by
  cases a with
  | bulkOut urb env => exact absurd rfl (hout urb env)
  | bulkIn urb => exact h.bulkIn urb
  | unlink seqnum => exact h.congr rfl rfl rfl
  | control setup => exact h.congr rfl rfl rfl
  | setHalt dir => exact h.stallPipe dir
  | clearHalt dir => exact h.clearPipe dir
  | setConfiguration => exact (h.clearPipe .usbIn).clearPipe .usbOut

theorem control_writing (st : MscState) (setup : Setup)
    (h : (st.control setup).state.writing = true) : st.writing = true := by
  unfold MscState.control at h
  split at h
  · exact h
  · split at h
    · cases h
    · exact h

theorem act_frame (d : MscDevice) {a : HostAct} (hout : ∀ urb env, a ≠ .bulkOut urb env) :
    (d.act a).cbws = d.cbws ∧ (d.act a).writer = d.writer ∧
      (d.act a).outEp.onOut = d.outEp.onOut ∧
      ((d.act a).msc.writing = true → d.msc.writing = true) := by
  cases a with
  | bulkOut urb env => exact absurd rfl (hout urb env)
  | control setup => exact ⟨rfl, rfl, rfl, control_writing d.msc setup⟩
  | setHalt dir =>
    obtain ⟨hmsc, hcbws, hwriter, hout⟩ := stallPipe_frame d dir
    exact ⟨hcbws, hwriter, hout, fun h => hmsc ▸ h⟩
  | clearHalt dir => cases dir <;> exact ⟨rfl, rfl, rfl, id⟩
  | _ => exact ⟨rfl, rfl, rfl, id⟩

/-- Each number in use is that of a chunk so far, and of one behind the first `n` as long as the
reads behind the first `base` are concerned. -/
structure Behind (n base : Nat) (d : MscDevice) : Prop where
  numbered : d.Numbered (fun k => n ≤ k ∧ k ≤ d.cbws) base
  le : n ≤ d.cbws + 1
  writer : d.msc.writing = true → n ≤ d.writer ∧ d.writer ≤ d.cbws
  registered : d.outEp.onOut = true

variable {n : Nat}

theorem Behind.onOut (h : Behind n base d) (chunk : List UInt8) (env : Env) :
    Behind n base (d.onOut chunk env) := by
  obtain ⟨hcbws, hwriter, hon⟩ := onOut_frame d chunk env
  have hle : d.cbws ≤ (d.onOut chunk env).cbws := by
    rw [hcbws]
    split <;> omega
  have hnum : n ≤ d.number ∧ d.number ≤ (d.onOut chunk env).cbws := by
    rw [hcbws, number]
    split
    · exact h.writer ‹_›
    · exact ⟨h.le, Nat.le_refl _⟩
  have hgrown := h.numbered.mono (Q := fun k => n ≤ k ∧ k ≤ (d.onOut chunk env).cbws)
    fun k hk => ⟨hk.1, Nat.le_trans hk.2 hle⟩
  refine ⟨hgrown.onOut hnum chunk env, ?_, fun _ => ?_, hon.trans h.registered⟩
  · have := h.le
    omega
  · rw [hwriter]
    exact hnum

theorem Behind.act (h : Behind n base d) (a : HostAct) : Behind n base (d.act a) := by
  by_cases ha : ∃ urb env, a = .bulkOut urb env
  · obtain ⟨urb, env, rfl⟩ := ha
    obtain ⟨ep, hep, hcase⟩ := bulkOut_cases d h.registered urb env
    have hnew : Behind n base { d with outEp := ep } :=
      ⟨h.numbered.congr rfl rfl rfl, h.le, h.writer, hep⟩
    rcases hcase with hsame | hchunk
    · show Behind n base (d.bulkOut urb env)
      rw [hsame]
      exact hnew
    · show Behind n base (d.bulkOut urb env)
      rw [hchunk]
      exact hnew.onOut urb.data env
  · have hne : ∀ urb env, a ≠ .bulkOut urb env := fun urb env h => ha ⟨urb, env, h⟩
    obtain ⟨hcbws, hwriter, hout, hwriting⟩ := act_frame d hne
    have hnum := h.numbered.act_other hne
    have hw := fun hw => h.writer (hwriting hw)
    rw [← hcbws] at hnum hw
    rw [← hwriter] at hw
    exact ⟨hnum, hcbws ▸ h.le, hw, hout.trans h.registered⟩

theorem Behind.run (h : Behind n base d) (acts : List HostAct) : Behind n base (d.run acts) := by
  induction acts generalizing d with
  | nil => exact h
  | cons a acts ih => exact ih (h.act a)

theorem attach_behind (msc : MscState) : Behind 0 0 (MscDevice.attach msc) where
  numbered :=
    { length := rfl
      waiting := fun _ hb => absurd hb List.not_mem_nil
      queued := fun _ hk => absurd hk List.not_mem_nil
      base_le := Nat.zero_le _
      reads := fun _ hr => absurd hr List.not_mem_nil }
  le := Nat.zero_le _
  writer _ := ⟨Nat.le_refl _, Nat.le_refl _⟩
  registered := rfl

/-- What Reset Recovery changes. -/
theorem recover_eq (d : MscDevice) (iface : UInt16) (first : Dir) :
    d.recover iface first = { d with
      msc := { d.msc with writing := false, wbuf := [] }
      inEp := { d.inEp with halted := false }
      outEp := { d.outEp with halted := false } } := by
  cases first <;> rfl

theorem Behind.recover (h : Behind 0 0 d) (hinq : d.inEp.inq = []) (iface : UInt16)
    (first : Dir) : Behind (d.cbws + 1) d.reads.length (d.recover iface first) := by
  have hqueued : d.queued = [] := by
    refine List.eq_nil_of_length_eq_zero ?_
    rw [h.numbered.length, hinq]
    rfl
  rw [recover_eq]
  refine ⟨⟨h.numbered.length, h.numbered.waiting, ?_, Nat.le_refl _, ?_⟩, Nat.le_refl _, ?_,
    h.registered⟩
  · rw [hqueued]
    exact fun k hk => absurd hk List.not_mem_nil
  · rw [List.drop_length]
    exact fun r hr => absurd hr List.not_mem_nil
  · exact fun hw => nomatch hw

/-- The next URB gets the first bytes of a buffer that is still queued. -/
theorem Behind.stale_read (h : Behind 0 0 d) (hinq : d.inEp.inq ≠ [])
    (hhalt : d.inEp.halted = false) :
    ∃ r ∈ (d.bulkIn (.bulkIn 0 0 0)).reads.drop d.reads.length, r.bytes ≠ [] ∧ r.cbw ≤ d.cbws := by
  obtain ⟨b, rest, hinq⟩ := List.exists_cons_of_ne_nil hinq
  have hlen := h.numbered.length
  rw [hinq] at hlen
  obtain ⟨k, ks, hks⟩ : ∃ k ks, d.queued = k :: ks := List.exists_cons_of_length_eq_add_one hlen
  have hk := (h.numbered.queued k (hks ▸ List.mem_cons_self)).2
  obtain ⟨hoff, hpos⟩ := h.numbered.waiting b (hinq ▸ List.mem_cons_self)
  have hcap : capLength (Urb.bulkIn 0 0 0).length (b.len - b.off) = b.len - b.off :=
    if_neg fun h => h.1 rfl
  rw [bulkIn_serve hhalt hinq, hks, hcap]
  refine ⟨⟨k, Slice.bytes ⟨b.data, b.off⟩ (b.len - b.off)⟩, ?_, ?_, hk⟩
  · rw [List.drop_left]
    exact List.mem_singleton_self _
  · refine List.ne_nil_of_length_pos ?_
    rw [Slice.bytes, List.length_take, List.length_drop]
    simp only [Dbuf.len] at hoff hpos ⊢
    omega

theorem Behind.recover_empties_iff (h : Behind 0 0 d) (iface : UInt16) (first : Dir) :
    (d.recover iface first).Clean d.cbws ↔ d.inEp.inq = [] := by
  constructor
  · intro hclean
    by_contra hinq
    have hd : Behind 0 0 (d.recover iface first) := h.run _
    have hread := hd.stale_read (by rw [recover_eq]; exact hinq) (by rw [recover_eq])
    obtain ⟨r, hr, hne, hle⟩ := hread
    have := hclean.fresh [.bulkIn (.bulkIn 0 0 0)] r hr hne
    rw [recover_eq] at hle
    exact absurd hle (Nat.not_le.mpr this)
  · intro hinq
    have hd := h.recover hinq iface first
    constructor
    · rw [recover_eq]
    · intro chunk env
      exact MscState.onOut_of_idle (by rw [recover_eq]) chunk env
    · intro acts r hr hne
      have hbase : (d.recover iface first).reads.length = d.reads.length := by rw [recover_eq]
      rw [hbase] at hr
      exact ((hd.run acts).numbered.reads r hr hne).1

end

/-- Reset Recovery leaves nothing of the earlier commands exactly when nothing is queued on the IN
pipe. -/
theorem recover_clean_iff (msc : MscState) (before : List HostAct) (iface : UInt16) (first : Dir) :
    let d := (MscDevice.attach msc).run before
    (d.recover iface first).Clean d.cbws ↔ d.inEp.inq = [] :=
  ((attach_behind msc).run before).recover_empties_iff iface first

/-- A wrapper for `TEST_UNIT_READY`, whose status the host does not read. -/
def unreadStatus : List HostAct :=
  [.bulkOut { Urb.bulkIn 0 1 31 with
    direction := .usbOut, data := cbwSig ++ List.replicate 10 0 ++ [6] ++ List.replicate 16 0 } diskEnv]

theorem unreadStatus_not_clean :
    let d := (MscDevice.attach disk).run unreadStatus
    ¬(d.recover 0 .usbIn).Clean d.cbws := by
  intro d hclean
  have hd : Behind 0 0 d := (attach_behind disk).run unreadStatus
  have hnone : d.inEp.inq = [] := (hd.recover_empties_iff 0 .usbIn).mp hclean
  have : d.inEp.inq ≠ [] := by
    decide
  exact this hnone

end MscDevice

end Usbip.Msc
