import Ququmatz.Types.Written

/-!
# `Ququmatz.Types.Entries`: the entries of the two queues in memory

`IoUringSqe` and `IoUringCqe` of `src/types/sqe_cqe.rs`, with their layouts. Both are their fields,
one right behind the other, so that all bytes of a slot are those of some entry (`Sqe.exact`,
`Cqe.exact`).
-/

set_option autoImplicit false

namespace Ququmatz

open Lib

variable [Native]

def u8Layout : Layout UInt8 :=
  wordLayout 1 (fun v => [v]) (fun bs => bs.headD 0) (fun _ => rfl) fun _ => rfl

omit [Native] in
theorem wordLayout_exact {V : Type} {n : Nat} {toBytes : V → List UInt8} {value : List UInt8 → V}
    {hlen : ∀ v, (toBytes v).length = n} {hvalue : ∀ v, value (toBytes v) = v}
    (hbytes : ∀ bs, bs.length = n → toBytes (value bs) = bs) :
    (wordLayout n toBytes value hlen hvalue).Exact := by
  intro bytes addr f hf
  rw [List.mem_singleton.mp hf]
  show Bytes.load bytes (addr + 0) (toBytes _).length = toBytes _
  rw [hlen, Nat.add_zero]
  exact (hbytes _ (Bytes.length_load _ _ _)).symm

omit [Native] in
theorem u8Layout_exact : u8Layout.Exact := by
  refine wordLayout_exact fun bs hbs => ?_
  obtain ⟨b, rfl⟩ := List.length_eq_one_iff.mp hbs
  rfl

theorem u16Layout_exact : u16Layout.Exact := wordLayout_exact fun _ h => u16Bytes_u16Value h

theorem u32Layout_exact : u32Layout.Exact := wordLayout_exact fun _ h => u32Bytes_u32Value h

theorem u64Layout_exact : u64Layout.Exact := wordLayout_exact fun _ h => u64Bytes_u64Value h

theorem i32Bytes_i32Value {bs : List UInt8} (h : bs.length = 4) :
    i32Bytes (i32Value bs) = bs := by
  show u32Bytes (i32Value bs).toUInt32 = bs
  rw [show (i32Value bs).toUInt32 = u32Value bs from rfl, u32Bytes_u32Value h]

theorem i32Layout_exact : i32Layout.Exact := wordLayout_exact fun _ h => i32Bytes_i32Value h

/-- `IoUringSqe` in memory. -/
def Sqe.layout : Layout Sqe :=
  let head := u8Layout.pair <| u8Layout.pair <| u16Layout.pair <| i32Layout
  let body := u64Layout.pair <| u64Layout.pair <| u32Layout.pair <| u32Layout.pair <| u64Layout
  let tail := u16Layout.pair <| u16Layout.pair <| i32Layout.pair <| u64Layout.pair <| u64Layout
  (head.pair <| body.pair tail).iso
    (fun s => ((s.opcode, s.flags, s.ioprio, s.fd),
      (s.off, s.addr, s.len, s.opFlags, s.userData),
      (s.bufIndex, s.personality, s.spliceFdIn, s.addr3, s.pad2)))
    (fun ((opcode, flags, ioprio, fd), (off, addr, len, opFlags, userData),
        (bufIndex, personality, spliceFdIn, addr3, pad2)) =>
      ⟨opcode, flags, ioprio, fd, off, addr, len, opFlags, userData, bufIndex, personality,
        spliceFdIn, addr3, pad2⟩)
    fun _ => rfl

/-- `IoUringCqe` in memory. -/
def Cqe.layout : Layout Cqe :=
  (u64Layout.pair <| i32Layout.pair u32Layout).iso (fun c => (c.userData, c.res, c.flags))
    (fun (userData, res, flags) => ⟨userData, res, flags⟩) fun _ => rfl

theorem Sqe.layout_size : Sqe.layout.size = 64 := by
  simp [Sqe.layout, Layout.pair, Layout.iso, u8Layout, u16Layout, u32Layout, u64Layout, i32Layout,
    wordLayout]

theorem Cqe.layout_size : Cqe.layout.size = 16 := by
  simp [Cqe.layout, Layout.pair, Layout.iso, u32Layout, u64Layout, i32Layout, wordLayout]

theorem Sqe.exact : Sqe.layout.Exact := by
  have hhead := u8Layout_exact.pair <| u8Layout_exact.pair <| u16Layout_exact.pair i32Layout_exact
  have hbody := u64Layout_exact.pair <| u64Layout_exact.pair <| u32Layout_exact.pair <|
    u32Layout_exact.pair u64Layout_exact
  have htail := u16Layout_exact.pair <| u16Layout_exact.pair <| i32Layout_exact.pair <|
    u64Layout_exact.pair u64Layout_exact
  unfold Sqe.layout
  apply (hhead.pair (hbody.pair htail)).iso
  rintro ⟨⟨opcode, flags, ioprio, fd⟩, body, tail⟩
  rfl

theorem Cqe.exact : Cqe.layout.Exact := by
  apply (u64Layout_exact.pair (i32Layout_exact.pair u32Layout_exact)).iso
  rintro ⟨userData, res, flags⟩
  rfl

end Ququmatz
