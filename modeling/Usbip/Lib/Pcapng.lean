import Usbip.Lib.Bytes
import Usbip.Lib.Cut

/-! Little-endian numbers, and the part of the pcapng format that a capture of one section with one
interface uses: blocks with their length at both ends, options, and packets. -/

namespace Usbip.Lib

/-! ### Little-endian numbers -/

/-- The `w` little-endian bytes of a number. -/
def leBytes : Nat → Nat → List UInt8
  | 0, _ => []
  | w + 1, n => UInt8.ofNat n :: leBytes w (n / 256)

def leNat : List UInt8 → Nat
  | [] => 0
  | b :: bs => b.toNat + 256 * leNat bs

/-- The number in `w` bytes at an offset. -/
def leAt (bytes : List UInt8) (off w : Nat) : Nat := leNat (bytesAt bytes off w)

@[simp] theorem leBytes_length (w n : Nat) : (leBytes w n).length = w := by
  induction w generalizing n with
  | zero => rfl
  | succ w ih => rw [leBytes, List.length_cons, ih]

theorem leNat_leBytes (w n : Nat) : leNat (leBytes w n) = n % 256 ^ w := by
  induction w generalizing n with
  | zero => rw [leBytes, leNat, Nat.pow_zero, Nat.mod_one]
  | succ w ih =>
    have hsplit : n % 256 ^ (w + 1) = n % 256 + 256 * (n / 256 % 256 ^ w) := by
      rw [Nat.pow_succ', Nat.mod_mul]
    rw [leBytes, leNat, ih, UInt8.toNat_ofNat', hsplit]

/-- A field that starts where the bytes before it end. -/
theorem bytesAt_append {front mid : List UInt8} (rest : List UInt8) {off w : Nat}
    (hoff : front.length = off) (hw : mid.length = w) :
    bytesAt (front ++ (mid ++ rest)) off w = mid := by
  rw [bytesAt, List.drop_left' hoff, List.take_left' hw]

theorem leAt_append {front : List UInt8} (rest : List UInt8) {off w n : Nat} (hn : n < 256 ^ w)
    (hoff : front.length = off) : leAt (front ++ (leBytes w n ++ rest)) off w = n := by
  rw [leAt, bytesAt_append rest hoff (leBytes_length w n), leNat_leBytes, Nat.mod_eq_of_lt hn]

/-- The field at the front. -/
theorem leAt_front (rest : List UInt8) {w n : Nat} (hn : n < 256 ^ w) :
    leAt (leBytes w n ++ rest) 0 w = n :=
  have h := leAt_append rest hn (show ([] : List UInt8).length = 0 from rfl)
  h

/-- The padding behind `n` bytes, `(-n) & 3`. -/
def pad4 (n : Nat) : Nat := (4 - n % 4) % 4

theorem pad4_lt (n : Nat) : pad4 n < 4 := Nat.mod_lt _ (by decide)

theorem add_pad4_mod (n : Nat) : (n + pad4 n) % 4 = 0 := by
  unfold pad4
  omega

def zeros (n : Nat) : List UInt8 := List.replicate n 0

@[simp] theorem zeros_length (n : Nat) : (zeros n).length = n := List.length_replicate

/-- A list is mapped by a partial function that is defined on it. -/
theorem mapM_map {α β γ : Type} {f : α → β} {g : β → Option γ} {h : α → γ} {l : List α}
    (hg : ∀ a ∈ l, g (f a) = some (h a)) : (l.map f).mapM g = some (l.map h) := by
  induction l with
  | nil => rfl
  | cons a l ih =>
    obtain ⟨ha, hl⟩ := List.forall_mem_cons.mp hg
    rw [List.map_cons, List.mapM_cons, ha, ih hl]
    rfl

namespace Pcapng

/-! ### Blocks -/

structure Block where
  kind : Nat
  body : List UInt8
  deriving DecidableEq, Repr

/-- A block as it stands in a file. -/
def Block.bytes (b : Block) : List UInt8 :=
  leBytes 4 b.kind ++ (leBytes 4 (b.body.length + 12) ++ (b.body ++ leBytes 4 (b.body.length + 12)))

/-- The total length that a reader finds in a block. -/
def blockSize (bytes : List UInt8) : Nat := leAt bytes 4 4

/-- A block whose two lengths agree and are a multiple of 4. -/
def parseBlock (bytes : List UInt8) : Option Block :=
  let total := blockSize bytes
  if 12 ≤ total ∧ total % 4 = 0 ∧ bytes.length = total ∧ leAt bytes (total - 4) 4 = total then
    some ⟨leAt bytes 0 4, bytesAt bytes 8 (total - 12)⟩
  else none

/-- A file as the blocks in it. -/
def parseBlocks (bytes : List UInt8) : Option (List Block) :=
  (cut blockSize bytes).bind fun blocks => blocks.mapM parseBlock

/-- The block can be written with its kind and its length. -/
structure Block.Proper (b : Block) : Prop where
  kind : b.kind < 256 ^ 4
  total : b.body.length + 12 < 256 ^ 4
  aligned : b.body.length % 4 = 0

theorem Block.bytes_length (b : Block) : b.bytes.length = b.body.length + 12 := by
  simp only [bytes, List.length_append, leBytes_length]
  omega

theorem Block.size_bytes {b : Block} (h : b.Proper) (rest : List UInt8) :
    blockSize (b.bytes ++ rest) = b.body.length + 12 := by
  have htotal := leAt_append (b.body ++ leBytes 4 (b.body.length + 12) ++ rest) h.total
    (leBytes_length 4 b.kind)
  rw [blockSize, bytes]
  simpa only [List.append_assoc] using htotal

theorem Block.measured {b : Block} (h : b.Proper) : Measured blockSize b.bytes := by
  refine ⟨List.ne_nil_of_length_pos (by rw [b.bytes_length]; omega), fun rest => ?_⟩
  rw [b.size_bytes h, b.bytes_length]

theorem Block.parse_bytes {b : Block} (h : b.Proper) : parseBlock b.bytes = some b := by
  have hsize : blockSize b.bytes = b.body.length + 12 := by
    have := b.size_bytes h []
    rwa [List.append_nil] at this
  have hkind : leAt b.bytes 0 4 = b.kind :=
    leAt_front (leBytes 4 (b.body.length + 12) ++ (b.body ++ leBytes 4 (b.body.length + 12))) h.kind
  have hbody : bytesAt b.bytes 8 (b.body.length + 12 - 12) = b.body := by
    have hfront : (leBytes 4 b.kind ++ leBytes 4 (b.body.length + 12)).length = 8 := by simp
    have hfield := bytesAt_append (leBytes 4 (b.body.length + 12)) hfront
      (show b.body.length = b.body.length + 12 - 12 by omega)
    rwa [List.append_assoc] at hfield
  have hlast : leAt b.bytes (b.body.length + 12 - 4) 4 = b.body.length + 12 := by
    have hfront : (leBytes 4 b.kind ++ leBytes 4 (b.body.length + 12) ++ b.body).length =
        b.body.length + 12 - 4 := by
      simp only [List.length_append, leBytes_length]
      omega
    have hfield := leAt_append [] h.total hfront
    simpa only [bytes, List.append_assoc, List.append_nil] using hfield
  have haligned := h.aligned
  rw [parseBlock, hsize, if_pos ⟨by omega, by omega, b.bytes_length, hlast⟩, hkind, hbody]

/-- The blocks written one after another are read again. -/
theorem parseBlocks_bytes {blocks : List Block} (h : ∀ b ∈ blocks, b.Proper) :
    parseBlocks (blocks.flatMap Block.bytes) = some blocks := by
  have hcut : cut blockSize (blocks.map Block.bytes).flatten = some (blocks.map Block.bytes) :=
    cut_flatten (List.forall_mem_map.mpr fun b hb => b.measured (h b hb))
  rw [parseBlocks, List.flatMap_def, hcut, Option.bind_some,
    mapM_map fun b hb => b.parse_bytes (h b hb), List.map_id']

/-! ### Options -/

/-- An option as it stands in a block. -/
def optionBytes (code : Nat) (val : List UInt8) : List UInt8 :=
  leBytes 2 code ++ (leBytes 2 val.length ++ (val ++ zeros (pad4 val.length)))

/-- The options of a block, up to the end that `opt_endofopt` marks. -/
def optionsBytes (opts : List (Nat × List UInt8)) : List UInt8 :=
  (opts.flatMap fun opt => optionBytes opt.1 opt.2) ++ zeros 4

/-- A list of options that ends with `opt_endofopt`, in at most `fuel` steps. -/
def parseOptionsFuel : Nat → List UInt8 → Option (List (Nat × List UInt8))
  | 0, _ => none
  | fuel + 1, bytes =>
    let code := leAt bytes 0 2
    let len := leAt bytes 2 2
    let size := 4 + len + pad4 len
    if bytes.length < size then none
    else if code = 0 then if len = 0 ∧ bytes.length = 4 then some [] else none
    else (parseOptionsFuel fuel (bytes.drop size)).map ((code, bytesAt bytes 4 len) :: ·)

def parseOptions (bytes : List UInt8) : Option (List (Nat × List UInt8)) :=
  parseOptionsFuel bytes.length bytes

/-- The option can be written. -/
structure ProperOption (opt : Nat × List UInt8) : Prop where
  code : 0 < opt.1 ∧ opt.1 < 256 ^ 2
  len : opt.2.length < 256 ^ 2

theorem optionBytes_length (code : Nat) (val : List UInt8) :
    (optionBytes code val).length = 4 + val.length + pad4 val.length := by
  simp only [optionBytes, List.length_append, leBytes_length, zeros_length]
  omega

theorem optionsBytes_mod (opts : List (Nat × List UInt8)) : (optionsBytes opts).length % 4 = 0 := by
  induction opts with
  | nil => rfl
  | cons opt opts ih =>
    have hpad := add_pad4_mod opt.2.length
    rw [optionsBytes, List.length_append] at ih
    rw [optionsBytes, List.flatMap_cons, List.length_append, List.length_append,
      optionBytes_length]
    omega

theorem parseOptions_bytes {opts : List (Nat × List UInt8)} (h : ∀ opt ∈ opts, ProperOption opt) :
    parseOptions (optionsBytes opts) = some opts := by
  have hfuel : ∀ fuel, (optionsBytes opts).length ≤ fuel →
      parseOptionsFuel fuel (optionsBytes opts) = some opts := by
    induction opts with
    | nil =>
      intro fuel hle
      cases fuel with
      | zero => exact absurd hle (by decide)
      | succ fuel => rfl
    | cons opt opts ih =>
      obtain ⟨hopt, hopts⟩ := List.forall_mem_cons.mp h
      obtain ⟨code, val⟩ := opt
      have hbytes : optionsBytes ((code, val) :: opts) =
          optionBytes code val ++ optionsBytes opts := by
        simp only [optionsBytes, List.flatMap_cons, List.append_assoc]
      have hwhole : optionsBytes ((code, val) :: opts) = leBytes 2 code ++ (leBytes 2 val.length ++
          (val ++ (zeros (pad4 val.length) ++ optionsBytes opts))) := by
        rw [hbytes, optionBytes]
        simp only [List.append_assoc]
      have hcode : leAt (optionsBytes ((code, val) :: opts)) 0 2 = code := by
        rw [hwhole]
        exact leAt_front _ hopt.code.2
      have hlen : leAt (optionsBytes ((code, val) :: opts)) 2 2 = val.length := by
        rw [hwhole]
        exact leAt_append _ hopt.len (leBytes_length 2 code)
      have hval : bytesAt (optionsBytes ((code, val) :: opts)) 4 val.length = val := by
        rw [hwhole, ← List.append_assoc]
        exact bytesAt_append _ (by simp) rfl
      have hrest : (optionsBytes ((code, val) :: opts)).drop
          (4 + val.length + pad4 val.length) = optionsBytes opts := by
        rw [hbytes]
        exact List.drop_left' (optionBytes_length code val)
      intro fuel hle
      rw [hbytes, List.length_append, optionBytes_length] at hle
      cases fuel with
      | zero => omega
      | succ fuel =>
        have hsize : ¬(optionsBytes ((code, val) :: opts)).length <
            4 + val.length + pad4 val.length := by
          rw [hbytes, List.length_append, optionBytes_length]
          omega
        simp only [parseOptionsFuel, hcode, hlen, hval, hrest]
        rw [if_neg hsize, if_neg (Nat.ne_of_gt hopt.code.1), ih hopts fuel (by omega)]
        rfl
  exact hfuel _ (Nat.le_refl _)

/-! ### A capture -/

structure Packet where
  iface : Nat
  timestamp : Nat
  origLen : Nat
  data : List UInt8
  deriving DecidableEq, Repr

/-- A section with one interface: its options, the interface's link type and options, and the
packets. -/
structure Capture where
  sectionOpts : List (Nat × List UInt8)
  linkType : Nat
  ifaceOpts : List (Nat × List UInt8)
  packets : List Packet
  deriving DecidableEq, Repr

def sectionHeader : Nat := 0x0a0d0d0a
def interfaceBlock : Nat := 1
def packetBlock : Nat := 6

/-- A section header of version 1.0 with the byte-order magic, for a section whose length is not
given. -/
def readSection (b : Block) : Option (List (Nat × List UInt8)) :=
  if b.kind = sectionHeader ∧ leAt b.body 0 4 = 0x1a2b3c4d ∧ leAt b.body 4 2 = 1 ∧
      leAt b.body 6 2 = 0 ∧ leAt b.body 8 8 = 2 ^ 64 - 1 then
    parseOptions (b.body.drop 16)
  else none

/-- An interface description without a snap length: the link type and the options. -/
def readInterface (b : Block) : Option (Nat × List (Nat × List UInt8)) :=
  if b.kind = interfaceBlock ∧ leAt b.body 4 4 = 0 then
    (parseOptions (b.body.drop 8)).map (leAt b.body 0 2, ·)
  else none

/-- An enhanced packet block of interface 0, without options. -/
def readPacket (b : Block) : Option Packet :=
  let caplen := leAt b.body 12 4
  if b.kind = packetBlock ∧ leAt b.body 0 4 = 0 ∧ 20 ≤ b.body.length ∧
      b.body.length = 20 + caplen + pad4 caplen then
    some ⟨0, leAt b.body 4 4 * 2 ^ 32 + leAt b.body 8 4, leAt b.body 16 4,
      bytesAt b.body 20 caplen⟩
  else none

/-- A section header block, an interface block, and packet blocks. -/
def read (bytes : List UInt8) : Option Capture :=
  (parseBlocks bytes).bind fun
    | shb :: idb :: epbs =>
      (readSection shb).bind fun sectionOpts => (readInterface idb).bind fun (linkType, ifaceOpts) =>
        (epbs.mapM readPacket).map fun packets => ⟨sectionOpts, linkType, ifaceOpts, packets⟩
    | _ => none

/-- The body of a section header. -/
def sectionBody (opts : List (Nat × List UInt8)) : List UInt8 :=
  leBytes 4 0x1a2b3c4d ++ (leBytes 2 1 ++ (leBytes 2 0 ++ (leBytes 8 (2 ^ 64 - 1) ++
    optionsBytes opts)))

def interfaceBody (linkType : Nat) (opts : List (Nat × List UInt8)) : List UInt8 :=
  leBytes 2 linkType ++ (leBytes 2 0 ++ (leBytes 4 0 ++ optionsBytes opts))

/-- The body of a packet block whose data was captured whole. -/
def packetBody (timestamp : Nat) (data : List UInt8) : List UInt8 :=
  leBytes 4 0 ++ (leBytes 4 (timestamp / 2 ^ 32) ++ (leBytes 4 (timestamp % 2 ^ 32) ++
    (leBytes 4 data.length ++ (leBytes 4 data.length ++ (data ++ zeros (pad4 data.length))))))

theorem readSection_body {opts : List (Nat × List UInt8)} (h : ∀ opt ∈ opts, ProperOption opt) :
    readSection ⟨sectionHeader, sectionBody opts⟩ = some opts := by
  have hmagic : leAt (sectionBody opts) 0 4 = 0x1a2b3c4d :=
    leAt_front _ (by decide)
  have hmajor : leAt (sectionBody opts) 4 2 = 1 := leAt_append _ (by decide) (leBytes_length 4 _)
  have hminor : leAt (sectionBody opts) 6 2 = 0 := by
    rw [sectionBody, ← List.append_assoc]
    exact leAt_append _ (by decide) (by simp)
  have hlen : leAt (sectionBody opts) 8 8 = 2 ^ 64 - 1 := by
    rw [sectionBody, ← List.append_assoc, ← List.append_assoc]
    exact leAt_append _ (by decide) (by simp)
  have hopts : (sectionBody opts).drop 16 = optionsBytes opts := by
    rw [sectionBody, ← List.append_assoc, ← List.append_assoc, ← List.append_assoc]
    exact List.drop_left' (by simp)
  rw [readSection, if_pos ⟨rfl, hmagic, hmajor, hminor, hlen⟩, hopts, parseOptions_bytes h]

theorem readInterface_body {linkType : Nat} {opts : List (Nat × List UInt8)}
    (hlink : linkType < 256 ^ 2) (h : ∀ opt ∈ opts, ProperOption opt) :
    readInterface ⟨interfaceBlock, interfaceBody linkType opts⟩ = some (linkType, opts) := by
  have htype : leAt (interfaceBody linkType opts) 0 2 = linkType :=
    leAt_front _ hlink
  have hsnap : leAt (interfaceBody linkType opts) 4 4 = 0 := by
    rw [interfaceBody, ← List.append_assoc]
    exact leAt_append _ (by decide) (by simp)
  have hopts : (interfaceBody linkType opts).drop 8 = optionsBytes opts := by
    rw [interfaceBody, ← List.append_assoc, ← List.append_assoc]
    exact List.drop_left' (by simp)
  rw [readInterface, if_pos ⟨rfl, hsnap⟩, hopts, parseOptions_bytes h, htype]
  rfl

theorem packetBody_length (timestamp : Nat) (data : List UInt8) :
    (packetBody timestamp data).length = 20 + data.length + pad4 data.length := by
  simp only [packetBody, List.length_append, leBytes_length, zeros_length]
  omega

theorem readPacket_body {timestamp : Nat} {data : List UInt8} (htime : timestamp < 2 ^ 64)
    (hdata : data.length < 256 ^ 4) :
    readPacket ⟨packetBlock, packetBody timestamp data⟩ =
      some ⟨0, timestamp, data.length, data⟩ := by
  have hiface : leAt (packetBody timestamp data) 0 4 = 0 :=
    leAt_front _ (by decide)
  have hhigh : leAt (packetBody timestamp data) 4 4 = timestamp / 2 ^ 32 :=
    leAt_append _ (by omega) (leBytes_length 4 0)
  have hlow : leAt (packetBody timestamp data) 8 4 = timestamp % 2 ^ 32 := by
    rw [packetBody, ← List.append_assoc]
    exact leAt_append _ (by omega) (by simp)
  have hcap : leAt (packetBody timestamp data) 12 4 = data.length := by
    rw [packetBody, ← List.append_assoc, ← List.append_assoc]
    exact leAt_append _ hdata (by simp)
  have horig : leAt (packetBody timestamp data) 16 4 = data.length := by
    rw [packetBody, ← List.append_assoc, ← List.append_assoc, ← List.append_assoc]
    exact leAt_append _ hdata (by simp)
  have hbytes : bytesAt (packetBody timestamp data) 20 data.length = data := by
    rw [packetBody, ← List.append_assoc, ← List.append_assoc, ← List.append_assoc,
      ← List.append_assoc]
    exact bytesAt_append _ (by simp) rfl
  have hlen := packetBody_length timestamp data
  have hlong : 20 ≤ (packetBody timestamp data).length := by omega
  rw [readPacket, hcap, if_pos ⟨rfl, hiface, hlong, hlen⟩, hhigh, hlow, horig, hbytes,
    Nat.div_add_mod']

/-- A section header, an interface and packets that are written are read again. -/
theorem read_blocks {sectionOpts ifaceOpts : List (Nat × List UInt8)} {linkType : Nat}
    {packets : List (Nat × List UInt8)} (hsection : ∀ opt ∈ sectionOpts, ProperOption opt)
    (hiface : ∀ opt ∈ ifaceOpts, ProperOption opt) (hlink : linkType < 256 ^ 2)
    (hsecLen : (sectionBody sectionOpts).length + 12 < 256 ^ 4)
    (hifLen : (interfaceBody linkType ifaceOpts).length + 12 < 256 ^ 4)
    (hpackets : ∀ p ∈ packets, p.1 < 2 ^ 64 ∧ (packetBody p.1 p.2).length + 12 < 256 ^ 4) :
    read ((⟨sectionHeader, sectionBody sectionOpts⟩ ::
        ⟨interfaceBlock, interfaceBody linkType ifaceOpts⟩ ::
        packets.map fun p => (⟨packetBlock, packetBody p.1 p.2⟩ : Block)).flatMap Block.bytes) =
      some ⟨sectionOpts, linkType, ifaceOpts,
        packets.map fun p => ⟨0, p.1, p.2.length, p.2⟩⟩ := by
  have hproper : ∀ b ∈ ((⟨sectionHeader, sectionBody sectionOpts⟩ : Block) ::
      ⟨interfaceBlock, interfaceBody linkType ifaceOpts⟩ ::
      packets.map fun p => (⟨packetBlock, packetBody p.1 p.2⟩ : Block)), b.Proper := by
    rw [List.forall_mem_cons, List.forall_mem_cons, List.forall_mem_map]
    have hkind : sectionHeader < 256 ^ 4 ∧ interfaceBlock < 256 ^ 4 ∧ packetBlock < 256 ^ 4 := by
      decide
    refine ⟨⟨hkind.1, hsecLen, ?_⟩, ⟨hkind.2.1, hifLen, ?_⟩, fun p hp =>
      ⟨hkind.2.2, (hpackets p hp).2, ?_⟩⟩
    · have := optionsBytes_mod sectionOpts
      simp only [sectionBody, List.length_append, leBytes_length]
      omega
    · have := optionsBytes_mod ifaceOpts
      simp only [interfaceBody, List.length_append, leBytes_length]
      omega
    · have := add_pad4_mod p.2.length
      rw [packetBody_length]
      omega
  have hread : ∀ p ∈ packets, readPacket ⟨packetBlock, packetBody p.1 p.2⟩ =
      some ⟨0, p.1, p.2.length, p.2⟩ := fun p hp => by
    obtain ⟨htime, hlen⟩ := hpackets p hp
    rw [packetBody_length] at hlen
    exact readPacket_body htime (by omega)
  rw [read, parseBlocks_bytes hproper, Option.bind_some]
  simp only [readSection_body hsection, readInterface_body hlink hiface, Option.bind_some,
    mapM_map hread, Option.map_some]

end Pcapng

end Usbip.Lib
