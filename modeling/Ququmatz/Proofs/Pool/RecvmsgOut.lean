import Mathlib.Data.List.Basic
import Ququmatz.Pool.RecvmsgOut

/-!
# `Ququmatz.Proofs.Pool.RecvmsgOut`: parsing a multishot buffer

`parse_layout` is the round trip: parsing a header, a name region, a control region and a payload
gives them back, the first two cut at what the header reports. It needs the widths of the regions
and nothing about the reported lengths. `exists_layout` says that every buffer of at least
the fixed length is such a concatenation, so that the round trip covers it, and `parse_short`
takes the rest.
-/

set_option autoImplicit false

namespace Ququmatz

open Lib

variable {t : Target}

theorem Target.add_ok {a b : Nat} (h : a + b < 2 ^ t.usize.bits) : t.add a b = .ok (a + b) := by
  rw [Target.add, Target.arith, if_pos h]

theorem Target.checkedAdd_some {a b : Nat} (h : a + b < 2 ^ t.usize.bits) :
    t.checkedAdd a b = some (a + b) := if_pos h

/-- The sum of three is some number exactly when it fits. -/
theorem Target.checkedAdd_bind (a b c : Nat) :
    (t.checkedAdd a b).bind (t.checkedAdd · c)
      = if a + b + c < 2 ^ t.usize.bits then some (a + b + c) else none := by
  by_cases hab : a + b < 2 ^ t.usize.bits
  · rw [Target.checkedAdd_some hab]
    rfl
  · have habc : ¬ a + b + c < 2 ^ t.usize.bits := by omega
    rw [Target.checkedAdd, if_neg hab, if_neg habc]
    rfl

namespace RecvmsgOut

section Parsing

variable [Native]

@[simp] theorem length_toBytes (header : RecvmsgOut) : header.toBytes.length = SIZE := by
  simp [toBytes, SIZE]

/-- The four bytes of a word are read back, wherever the word stands. -/
theorem readU32_append {buf pre rest : List UInt8} {v : UInt32}
    (h : buf = pre ++ u32Bytes v ++ rest) (hfits : buf.length < 2 ^ t.usize.bits) {off : Nat}
    (hoff : pre.length = off) : readU32 t buf off = .ok v := by
  subst hoff
  obtain ⟨b0, b1, b2, b3, hword⟩ := List.length_eq_four.mp (length_u32Bytes v)
  have hlen : buf.length = pre.length + 4 + rest.length := by
    rw [h, List.length_append, List.length_append, length_u32Bytes]
  have hbyte : ∀ i < 4, Indexing.get buf (pre.length + i) = Indexing.get [b0, b1, b2, b3] i := by
    intro i hi
    rw [h, hword, Indexing.get_append hi]
  have hbyte0 : Indexing.get buf pre.length = .ok b0 := hbyte 0 (by decide)
  have hvalue : u32Value [b0, b1, b2, b3] = v := by rw [← hword, u32Value_u32Bytes]
  rw [readU32, hbyte0, Target.add_ok (by omega), Target.add_ok (by omega),
    Target.add_ok (by omega)]
  simp only [bind, Except.bind, hbyte _ (show 1 < 4 by decide), hbyte _ (show 2 < 4 by decide),
    hbyte _ (show 3 < 4 by decide), ← hvalue]
  rfl

/-- What the kernel puts into a buffer: the header, a name region and a control region of the
reserved widths, the payload. -/
structure Layout (msgNamelen msgControllen : UInt32) where
  header : RecvmsgOut
  name : List UInt8
  control : List UInt8
  payload : List UInt8
  nameWidth : name.length = msgNamelen.toNat
  controlWidth : control.length = msgControllen.toNat

namespace Layout

variable {msgNamelen msgControllen : UInt32}

def toBytes (l : Layout msgNamelen msgControllen) : List UInt8 :=
  l.header.toBytes ++ l.name ++ l.control ++ l.payload

/-- What there is to read in the buffer: no more of a region than the header reports, and no
more than its width. -/
def parts (l : Layout msgNamelen msgControllen) : RecvmsgParts where
  header := l.header
  name := l.name.take (min l.header.namelen.toNat msgNamelen.toNat)
  control := l.control.take (min l.header.controllen.toNat msgControllen.toNat)
  payload := l.payload

theorem length_toBytes (l : Layout msgNamelen msgControllen) :
    l.toBytes.length
      = SIZE + msgNamelen.toNat + msgControllen.toNat + l.payload.length := by
  rw [toBytes, List.length_append, List.length_append, List.length_append,
    RecvmsgOut.length_toBytes, l.nameWidth, l.controlWidth]

/-- A field of the header is read from its place, the length of the fields before it. -/
theorem readU32_field (l : Layout msgNamelen msgControllen)
    (hfits : l.toBytes.length < 2 ^ t.usize.bits) (pre rest : List UInt8) {v : UInt32}
    (h : l.header.toBytes = pre ++ u32Bytes v ++ rest) :
    readU32 t l.toBytes pre.length = .ok v := by
  have hbytes : l.toBytes
      = pre ++ u32Bytes v ++ (rest ++ (l.name ++ (l.control ++ l.payload))) := by
    rw [toBytes, h]
    simp only [List.append_assoc]
  exact readU32_append hbytes hfits rfl

theorem readU32_namelen (l : Layout msgNamelen msgControllen)
    (hfits : l.toBytes.length < 2 ^ t.usize.bits) :
    readU32 t l.toBytes 0 = .ok l.header.namelen := by
  have h := l.readU32_field hfits [] (u32Bytes l.header.controllen
    ++ u32Bytes l.header.payloadlen ++ u32Bytes l.header.flags) (v := l.header.namelen)
    (by simp [RecvmsgOut.toBytes])
  exact h

theorem readU32_controllen (l : Layout msgNamelen msgControllen)
    (hfits : l.toBytes.length < 2 ^ t.usize.bits) :
    readU32 t l.toBytes 4 = .ok l.header.controllen := by
  have h := l.readU32_field hfits (u32Bytes l.header.namelen)
    (u32Bytes l.header.payloadlen ++ u32Bytes l.header.flags) (v := l.header.controllen)
    (by simp [RecvmsgOut.toBytes])
  rwa [length_u32Bytes] at h

theorem readU32_payloadlen (l : Layout msgNamelen msgControllen)
    (hfits : l.toBytes.length < 2 ^ t.usize.bits) :
    readU32 t l.toBytes 8 = .ok l.header.payloadlen := by
  have h := l.readU32_field hfits (u32Bytes l.header.namelen ++ u32Bytes l.header.controllen)
    (u32Bytes l.header.flags) (v := l.header.payloadlen) (by simp [RecvmsgOut.toBytes])
  rwa [List.length_append, length_u32Bytes, length_u32Bytes] at h

theorem readU32_flags (l : Layout msgNamelen msgControllen)
    (hfits : l.toBytes.length < 2 ^ t.usize.bits) :
    readU32 t l.toBytes 12 = .ok l.header.flags := by
  have h := l.readU32_field hfits (u32Bytes l.header.namelen ++ u32Bytes l.header.controllen
    ++ u32Bytes l.header.payloadlen) [] (v := l.header.flags) (by simp [RecvmsgOut.toBytes])
  rwa [List.length_append, List.length_append, length_u32Bytes, length_u32Bytes,
    length_u32Bytes] at h

/-- A readable prefix of the name region, at the end of the header. -/
theorem range_name (l : Layout msgNamelen msgControllen) {n : Nat} (hn : n ≤ msgNamelen.toNat) :
    Indexing.range l.toBytes SIZE (SIZE + n) = .ok (l.name.take n) := by
  have hbytes : l.toBytes = l.header.toBytes ++ l.name ++ (l.control ++ l.payload) := by
    rw [toBytes, List.append_assoc]
  have h := Indexing.range_append hbytes (l.nameWidth ▸ hn)
  rwa [RecvmsgOut.length_toBytes] at h

/-- A readable prefix of the control region, past the whole width of the name region. -/
theorem range_control (l : Layout msgNamelen msgControllen) {n : Nat}
    (hn : n ≤ msgControllen.toNat) :
    Indexing.range l.toBytes (SIZE + msgNamelen.toNat) (SIZE + msgNamelen.toNat + n)
      = .ok (l.control.take n) := by
  have hbytes : l.toBytes = (l.header.toBytes ++ l.name) ++ l.control ++ l.payload := rfl
  have h := Indexing.range_append hbytes (l.controlWidth ▸ hn)
  rwa [List.length_append, RecvmsgOut.length_toBytes, l.nameWidth] at h

theorem rangeFrom_payload (l : Layout msgNamelen msgControllen) :
    Indexing.rangeFrom l.toBytes (SIZE + msgNamelen.toNat + msgControllen.toNat)
      = .ok l.payload := by
  have hbytes : l.toBytes = (l.header.toBytes ++ l.name ++ l.control) ++ l.payload := rfl
  have h := Indexing.rangeFrom_append hbytes
  rwa [List.length_append, List.length_append, RecvmsgOut.length_toBytes, l.nameWidth,
    l.controlWidth] at h

end Layout

/-! ### The three outcomes -/

/-- Parsing inverts the layout. -/
theorem parse_layout {buf : ByteSlice t.usize} {msgNamelen msgControllen : UInt32}
    (l : Layout msgNamelen msgControllen) (h : buf.bytes = l.toBytes) :
    parse t buf msgNamelen msgControllen = .ok (some l.parts) := by
  have hfits : l.toBytes.length < 2 ^ t.usize.bits := h ▸ buf.fits
  have hlen := l.length_toBytes
  have hname := Nat.min_le_right l.header.namelen.toNat msgNamelen.toNat
  have hcontrol := Nat.min_le_right l.header.controllen.toNat msgControllen.toNat
  -- every sum is an offset in the buffer, so none overflows
  have hfixed : SIZE + msgNamelen.toNat + msgControllen.toNat < 2 ^ t.usize.bits := by omega
  have hshort : ¬ l.toBytes.length < SIZE + msgNamelen.toNat + msgControllen.toNat := by omega
  rw [parse, h, Target.checkedAdd_bind, if_pos hfixed]
  simp only [bind, Except.bind, if_neg hshort, l.readU32_namelen hfits,
    l.readU32_controllen hfits, l.readU32_payloadlen hfits, l.readU32_flags hfits]
  rw [Target.add_ok (by omega), Target.add_ok (by omega)]
  simp only []
  rw [Target.add_ok (by omega), Target.add_ok (by omega)]
  simp only [l.range_name hname, l.range_control hcontrol, l.rangeFrom_payload]
  rfl

theorem parse_short {buf : ByteSlice t.usize} {msgNamelen msgControllen : UInt32}
    (h : buf.bytes.length < SIZE + msgNamelen.toNat + msgControllen.toNat) :
    parse t buf msgNamelen msgControllen = .ok none := by
  rw [parse, Target.checkedAdd_bind]
  by_cases hfixed : SIZE + msgNamelen.toNat + msgControllen.toNat < 2 ^ t.usize.bits
  · rw [if_pos hfixed]
    simp only [if_pos h]
    rfl
  · rw [if_neg hfixed]
    rfl

/-- Any bytes of the size of a header are one. -/
theorem exists_header {bs : List UInt8} (h : bs.length = SIZE) :
    ∃ header : RecvmsgOut, header.toBytes = bs := by
  have hsize : bs.length = 16 := h
  obtain ⟨w0, r0, rfl, h0⟩ := Indexing.exists_prefix (s := bs) (n := 4) (by omega)
  rw [List.length_append] at hsize
  obtain ⟨w1, r1, rfl, h1⟩ := Indexing.exists_prefix (s := r0) (n := 4) (by omega)
  rw [List.length_append] at hsize
  obtain ⟨w2, w3, rfl, h2⟩ := Indexing.exists_prefix (s := r1) (n := 4) (by omega)
  rw [List.length_append] at hsize
  have h3 : w3.length = 4 := by omega
  refine ⟨⟨u32Value w0, u32Value w1, u32Value w2, u32Value w3⟩, ?_⟩
  rw [toBytes, u32Bytes_u32Value h0, u32Bytes_u32Value h1, u32Bytes_u32Value h2,
    u32Bytes_u32Value h3, List.append_assoc, List.append_assoc]

/-- Every buffer of the fixed length or more is laid out in this way. -/
theorem exists_layout {buf : List UInt8} {msgNamelen msgControllen : UInt32}
    (h : SIZE + msgNamelen.toNat + msgControllen.toNat ≤ buf.length) :
    ∃ l : Layout msgNamelen msgControllen, l.toBytes = buf := by
  obtain ⟨head, r0, rfl, hhead⟩ := Indexing.exists_prefix (s := buf) (n := SIZE) (by omega)
  rw [List.length_append] at h
  obtain ⟨name, r1, rfl, hname⟩ :=
    Indexing.exists_prefix (s := r0) (n := msgNamelen.toNat) (by omega)
  rw [List.length_append] at h
  obtain ⟨control, payload, rfl, hcontrol⟩ :=
    Indexing.exists_prefix (s := r1) (n := msgControllen.toNat) (by omega)
  obtain ⟨header, rfl⟩ := exists_header hhead
  refine ⟨⟨header, name, control, payload, hname, hcontrol⟩, ?_⟩
  rw [Layout.toBytes, List.append_assoc, List.append_assoc]

/-- Every buffer is too short or parses to its parts. -/
theorem parse_cases (buf : ByteSlice t.usize) (msgNamelen msgControllen : UInt32) :
    (buf.bytes.length < SIZE + msgNamelen.toNat + msgControllen.toNat
        ∧ parse t buf msgNamelen msgControllen = .ok none) ∨
      (SIZE + msgNamelen.toNat + msgControllen.toNat ≤ buf.bytes.length
        ∧ ∃ l : Layout msgNamelen msgControllen, buf.bytes = l.toBytes
          ∧ parse t buf msgNamelen msgControllen = .ok (some l.parts)) := by
  rcases Nat.lt_or_ge buf.bytes.length (SIZE + msgNamelen.toNat + msgControllen.toNat)
    with hshort | hlong
  · exact Or.inl ⟨hshort, parse_short hshort⟩
  · obtain ⟨l, hl⟩ := exists_layout hlong
    exact Or.inr ⟨hlong, l, hl.symm, parse_layout l hl.symm⟩

theorem parse_total (buf : ByteSlice t.usize) (msgNamelen msgControllen : UInt32) :
    ∃ parts, parse t buf msgNamelen msgControllen = .ok parts := by
  rcases parse_cases buf msgNamelen msgControllen with ⟨-, hparse⟩ | ⟨-, l, -, hparse⟩
  · exact ⟨_, hparse⟩
  · exact ⟨_, hparse⟩

theorem parse_none_iff (buf : ByteSlice t.usize) (msgNamelen msgControllen : UInt32) :
    parse t buf msgNamelen msgControllen = .ok none
      ↔ buf.bytes.length < SIZE + msgNamelen.toNat + msgControllen.toNat := by
  rcases parse_cases buf msgNamelen msgControllen with ⟨hshort, hparse⟩ | ⟨hlong, l, hl, hparse⟩
  · exact iff_of_true hparse hshort
  · have hne : parse t buf msgNamelen msgControllen ≠ .ok none := by
      rw [hparse]
      simp
    exact iff_of_false hne (Nat.not_lt_of_le hlong)

end Parsing

end RecvmsgOut

/-! ### Slots of a pool -/

namespace ProvidedBufferRing

variable {ring : ProvidedBufferRing} {bufId : UInt16} {len : UInt32}

theorem buffer_none_iff :
    ring.buffer bufId len = none ↔ bufId.toUInt32 ≥ ring.entries ∨ len > ring.bufSize := by
  rw [buffer, bufferSlice]
  by_cases h : bufId.toUInt32 ≥ ring.entries ∨ len > ring.bufSize
  · rw [if_pos h]
    exact iff_of_true rfl h
  · rw [if_neg h]
    exact iff_of_false (by simp) h

theorem slot_none (w : Width) (h : ring.buffer bufId len = none) :
    ring.slot w bufId len = none := by
  unfold slot
  split
  · rfl
  · next bytes hbytes => rw [h] at hbytes; contradiction

theorem slot_some (w : Width) {bytes : List UInt8} (h : ring.buffer bufId len = some bytes) :
    ∃ buf, ring.slot w bufId len = some buf ∧ buf.bytes = bytes := by
  unfold slot
  split
  · next hnone => rw [h] at hnone; contradiction
  · next bytes' hbytes =>
      rw [h] at hbytes
      exact ⟨_, rfl, (Option.some.inj hbytes).symm⟩

variable [Native]

theorem recvmsgParts_none {msgNamelen msgControllen : UInt32}
    (h : ring.buffer bufId len = none) :
    ring.recvmsgParts t bufId len msgNamelen msgControllen = .ok none := by
  rw [recvmsgParts, slot_none t.usize h]

/-- A slot in the bounds is parsed as the bytes that were delivered there. -/
theorem recvmsgParts_some {msgNamelen msgControllen : UInt32} {bytes : List UInt8}
    (h : ring.buffer bufId len = some bytes) :
    ∃ buf : ByteSlice t.usize, buf.bytes = bytes
      ∧ ring.recvmsgParts t bufId len msgNamelen msgControllen
        = RecvmsgOut.parse t buf msgNamelen msgControllen := by
  obtain ⟨buf, hslot, hbytes⟩ := slot_some t.usize h
  refine ⟨buf, hbytes, ?_⟩
  rw [recvmsgParts, hslot]

theorem recvmsgParts_total (msgNamelen msgControllen : UInt32) :
    ∃ parts, ring.recvmsgParts t bufId len msgNamelen msgControllen = .ok parts := by
  cases hbuf : ring.buffer bufId len with
  | none => exact ⟨_, recvmsgParts_none hbuf⟩
  | some bytes =>
      obtain ⟨buf, -, hparse⟩ := recvmsgParts_some (t := t) hbuf
      rw [hparse]
      exact RecvmsgOut.parse_total buf msgNamelen msgControllen

theorem recvmsgParts_none_iff (msgNamelen msgControllen : UInt32) :
    ring.recvmsgParts t bufId len msgNamelen msgControllen = .ok none
      ↔ bufId.toUInt32 ≥ ring.entries ∨ len > ring.bufSize
        ∨ len.toNat < RecvmsgOut.SIZE + msgNamelen.toNat + msgControllen.toNat := by
  rw [← or_assoc, ← buffer_none_iff]
  cases hbuf : ring.buffer bufId len with
  | none => exact iff_of_true (recvmsgParts_none hbuf) (Or.inl rfl)
  | some bytes =>
      obtain ⟨buf, hbytes, hparse⟩ := recvmsgParts_some (t := t) hbuf
      rw [hparse, RecvmsgOut.parse_none_iff, hbytes, length_buffer hbuf]
      simp

end ProvidedBufferRing

/-! ### The law -/

/-- What parsing a multishot buffer gives: on every target, for every buffer and all reserved
widths, and for every slot of a pool. -/
structure RecvmsgOutLaw [Native] : Prop where
  /-- Neither an index nor a sum is out of bounds. -/
  total : ∀ (t : Target) (buf : ByteSlice t.usize) (msgNamelen msgControllen : UInt32),
    ∃ parts, RecvmsgOut.parse t buf msgNamelen msgControllen = .ok parts
  none_iff : ∀ (t : Target) (buf : ByteSlice t.usize) (msgNamelen msgControllen : UInt32),
    RecvmsgOut.parse t buf msgNamelen msgControllen = .ok none
      ↔ buf.bytes.length < 16 + msgNamelen.toNat + msgControllen.toNat
  inverts : ∀ (t : Target) (buf : ByteSlice t.usize) (msgNamelen msgControllen : UInt32)
    (header : RecvmsgOut) (name control payload : List UInt8),
    name.length = msgNamelen.toNat → control.length = msgControllen.toNat →
    buf.bytes = header.toBytes ++ name ++ control ++ payload →
    RecvmsgOut.parse t buf msgNamelen msgControllen = .ok (some
      { header := header
        name := name.take (min header.namelen.toNat msgNamelen.toNat)
        control := control.take (min header.controllen.toNat msgControllen.toNat)
        payload := payload })
  /-- The round trip leaves no buffer out. -/
  layout : ∀ (t : Target) (buf : ByteSlice t.usize) (msgNamelen msgControllen : UInt32),
    16 + msgNamelen.toNat + msgControllen.toNat ≤ buf.bytes.length →
    ∃ (header : RecvmsgOut) (name control payload : List UInt8),
      name.length = msgNamelen.toNat ∧ control.length = msgControllen.toNat
        ∧ buf.bytes = header.toBytes ++ name ++ control ++ payload
  /-- A slot of a pool parses to nothing when the id, the length or the layout does not fit. -/
  slot_total : ∀ (t : Target) (ring : ProvidedBufferRing) (bufId : UInt16)
    (len msgNamelen msgControllen : UInt32),
    ∃ parts, ring.recvmsgParts t bufId len msgNamelen msgControllen = .ok parts
  slot_none_iff : ∀ (t : Target) (ring : ProvidedBufferRing) (bufId : UInt16)
    (len msgNamelen msgControllen : UInt32),
    ring.recvmsgParts t bufId len msgNamelen msgControllen = .ok none
      ↔ bufId.toUInt32 ≥ ring.entries ∨ len > ring.bufSize
        ∨ len.toNat < 16 + msgNamelen.toNat + msgControllen.toNat
  slot_inverts : ∀ (t : Target) (ring : ProvidedBufferRing) (bufId : UInt16)
    (len msgNamelen msgControllen : UInt32) (header : RecvmsgOut)
    (name control payload : List UInt8),
    name.length = msgNamelen.toNat → control.length = msgControllen.toNat →
    ring.buffer bufId len = some (header.toBytes ++ name ++ control ++ payload) →
    ring.recvmsgParts t bufId len msgNamelen msgControllen = .ok (some
      { header := header
        name := name.take (min header.namelen.toNat msgNamelen.toNat)
        control := control.take (min header.controllen.toNat msgControllen.toNat)
        payload := payload })

/-- `RecvmsgOut::parse` is total, it is `None` exactly on a region that is too short, and it takes
apart what the kernel put together, also in a slot of a pool. -/
theorem recvmsgOutLaw [Native] : RecvmsgOutLaw where
  total _ buf msgNamelen msgControllen := RecvmsgOut.parse_total buf msgNamelen msgControllen
  none_iff _ buf msgNamelen msgControllen :=
    RecvmsgOut.parse_none_iff buf msgNamelen msgControllen
  inverts := by
    intro t buf msgNamelen msgControllen header name control payload hname hcontrol hbytes
    exact RecvmsgOut.parse_layout ⟨header, name, control, payload, hname, hcontrol⟩ hbytes
  layout := by
    intro t buf msgNamelen msgControllen hlong
    obtain ⟨l, hl⟩ := RecvmsgOut.exists_layout hlong
    exact ⟨l.header, l.name, l.control, l.payload, l.nameWidth, l.controlWidth, hl.symm⟩
  slot_total := by
    intro t ring bufId len msgNamelen msgControllen
    exact ring.recvmsgParts_total msgNamelen msgControllen
  slot_none_iff := by
    intro t ring bufId len msgNamelen msgControllen
    exact ring.recvmsgParts_none_iff msgNamelen msgControllen
  slot_inverts := by
    intro t ring bufId len msgNamelen msgControllen header name control payload hname hcontrol
      hbuf
    obtain ⟨buf, hbytes, hparse⟩ := ProvidedBufferRing.recvmsgParts_some (t := t) hbuf
    rw [hparse]
    exact RecvmsgOut.parse_layout ⟨header, name, control, payload, hname, hcontrol⟩ hbytes

end Ququmatz
