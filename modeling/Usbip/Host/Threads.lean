import Usbip.Host.Pipes
import Usbip.Lib.Locked

/-! Threads that make transfers on one handle.  The wrappers take the lock of the handle for each
transfer, from the request to its reply. -/

namespace Usbip.Host

open Lib Wire Control
open Classes (Contents)

section

variable {σ : Type} (dev : PipeDevice σ) (devid : UInt32)

theorem readCmd_nil (srv : Served) (old : Wire.Urb) : (readCmd srv old []).2 = none := rfl

/-- The serve loop waits for a header, and the client for a reply. -/
theorem pipeLink_waits : (pipeLink dev devid).Waits where
  server s := by
    rw [pipeLink_turn, PipeDevice.turn, readCmd_nil]
    rfl
  client seq q := by
    rw [pipeLink_recv]
    rfl

/-- Whatever threads do with the handle of a device, each gets the replies to its own transfers, and
they are those that the device gives when it is called in the order of the lock. -/
theorem threads_serial {ι : Type} {st : Piped σ} {p : Pipes σ} (hst : dev.Mirrors st p)
    {frames : Nat → Stack} {acts : List (LockAct ι Transfer)}
    {s : Locked ι (Piped σ × (Nat → Stack)) UInt32 Transfer Outcome UInt8 UInt8} (seq : UInt32)
    (hready : Guarded (pipeLink dev devid).act
      (Link.Allows (servePipes dev) (readyPipes dev) (p, frames))
      (.start (st, frames) seq) acts)
    (hrun : exec (pipeLink dev devid).act (.start (st, frames) seq) acts = some s) :
    ∃ rest s', rest <:+ [.turn, .unlock] ∧ (s.holder = none → rest = []) ∧
      exec (pipeLink dev devid).act s rest = some s' ∧ s'.asked = s.asked ∧ s.got <+: s'.got ∧
      Link.Settled (fun s p => dev.Mirrors s.1 p.1 ∧ s.2 = p.2) (servePipes dev) (p, frames) s' :=
  (pipeLink_carries dev devid).locked (pipeLink_waits dev devid) ⟨hst, rfl⟩ seq hready hrun

end

/-- A device that sends back on endpoint 1 what comes on it. -/
def loopback : PipeDevice Unit where
  described :=
    { withFallback with
      dev := { withFallback.dev with
        epMap := fun n dir => if n = 1 then some (if dir = .usbOut then 0 else 1) else none } }
  control st _ _ _ _ := (⟨[], st, -1⟩, [])
  setAlt st _ _ _ := (st, [])
  hasOnOut e := e = 0
  onOut st _ data := (st, [.write 1 data])
  stray _ _ := none

/-- One thread has 3 bytes sent, and the other asks for 2 of them. -/
def twoThreads : List (LockAct Bool Transfer) :=
  [.lock true (.output 1 0 [5, 6, 7] (by decide)), .turn, .unlock,
    .lock false (.input 1 0 2 (by decide))]

theorem threads_serial_twoThreads : ∃ s rest s',
    exec (pipeLink loopback 0x10001).act
      (.start (⟨(), fun e => .new (e = 0), 0⟩, fun _ => ⟨.zero, fun _ => 0⟩) 0) twoThreads = some s ∧
    exec (pipeLink loopback 0x10001).act s rest = some s' ∧
    Link.Settled (fun s p => loopback.Mirrors s.1 p.1 ∧ s.2 = p.2) (servePipes loopback)
      (⟨(), 0, fun _ => .empty⟩, fun _ => ⟨.zero, fun _ => 0⟩) s' := by
  obtain ⟨s, hs⟩ := Option.isSome_iff_exists.mp
    (show (exec (pipeLink loopback 0x10001).act
      (.start (⟨(), fun e => .new (e = 0), 0⟩, fun _ => ⟨.zero, fun _ => 0⟩) 0)
      twoThreads).isSome = true by decide +kernel)
  have hst : loopback.Mirrors ⟨(), fun e => .new (e = 0), 0⟩ ⟨(), 0, fun _ => .empty⟩ :=
    ⟨rfl, rfl, fun _ => .new _, fun _ => rfl⟩
  obtain ⟨rest, s', -, -, hrest, -, -, hsettled⟩ :=
    threads_serial loopback 0x10001 hst 0 (by decide +kernel) hs
  exact ⟨s, rest, s', hs, hrest, hsettled⟩

end Usbip.Host
