import Ququmatz.Owned.Recvmsg
import Ququmatz.Proofs.Owned.MsgRegion

/-!
# `Ququmatz.Proofs.Owned.Recvmsg`: a receive reports what the kernel wrote

`publish` leaves the header and a zeroed address slot, whatever the storage held (`Ready`), and
nothing that an owner does before the accepted push changes them. So what `received` and `peer`
read after the kernel has written is a function of the request and of the kernel's outcome
alone (`run_report`), which is the two-run property and gives the exact condition for an address.
-/

set_option autoImplicit false

namespace Ququmatz

open Lib

section Slots

variable [Native] {w : Width}

/-- Equal bytes, equal header. -/
theorem Width.MsgHdr.load_congr {m m' : Nat → UInt8} {addr : Nat}
    (h : Bytes.load m' addr w.sizeofMsgHdr = Bytes.load m addr w.sizeofMsgHdr) :
    MsgHdr.load w m' addr = MsgHdr.load w m addr := by
  have hbytes := w.bytes_cases
  have hpart : ∀ off n, off + n ≤ w.sizeofMsgHdr →
      Bytes.load m' (addr + off) n = Bytes.load m (addr + off) n := by
    intro off n hle
    rw [Bytes.load_part m' addr hle, Bytes.load_part m addr hle, h]
  have hname := hpart 0 w.bytes (by rw [sizeofMsgHdr]; omega)
  rw [Nat.add_zero] at hname
  rw [MsgHdr.load, MsgHdr.load, hname, hpart w.bytes 4 (by rw [sizeofMsgHdr]; omega),
    hpart (2 * w.bytes) w.bytes (by rw [sizeofMsgHdr]; omega),
    hpart (3 * w.bytes) w.bytes (by rw [sizeofMsgHdr]; omega),
    hpart (4 * w.bytes) w.bytes (by rw [sizeofMsgHdr]; omega),
    hpart (5 * w.bytes) w.bytes (by rw [sizeofMsgHdr]; omega),
    hpart (6 * w.bytes) 4 (by rw [sizeofMsgHdr]; omega)]

theorem SockAddrIn.toBytes_default : SockAddrIn.default.toBytes = List.replicate 16 0 := by
  simp [default, toBytes, u16Bytes, u32Bytes, u64Bytes]

/-- Sixteen bytes are those of the address that they stand for. -/
theorem SockAddrIn.toBytes_ofBytes {bs : List UInt8} (h : bs.length = sizeofSockAddrIn) :
    (SockAddrIn.ofBytes bs).toBytes = bs := by
  have hlen : bs.length = 16 := h
  have hfamily : u16Bytes (u16Value (bs.take 2)) = bs.take 2 := u16Bytes_u16Value (by simp; omega)
  have hport : u16Bytes (u16Value ((bs.drop 2).take 2)) = (bs.drop 2).take 2 :=
    u16Bytes_u16Value (by simp; omega)
  have haddr : u32Bytes (u32Value ((bs.drop 4).take 4)) = (bs.drop 4).take 4 :=
    u32Bytes_u32Value (by simp; omega)
  have hzero : u64Bytes (u64Value (bs.drop 8)) = bs.drop 8 := u64Bytes_u64Value (by simp; omega)
  have hsplit : ∀ k n, (bs.drop k).take n ++ bs.drop (k + n) = bs.drop k := fun k n => by
    rw [← List.drop_drop, List.take_append_drop]
  rw [toBytes, ofBytes, hfamily, hport, haddr, hzero, List.append_assoc, List.append_assoc,
    hsplit 4 4, hsplit 2 2, List.take_append_drop]

end Slots

/-! ### Before the kernel -/

theorem descriptorCalls_only {w : Width} {N : Nat} (p : PreparedRecvmsg w N) (lens : Fin N → Nat) :
    ∀ c ∈ p.descriptorCalls lens, ∃ index vec, c = .writeDescriptor index vec := by
  intro c hc
  obtain ⟨i, -, rfl⟩ := List.mem_map.mp hc
  exact ⟨_, _, rfl⟩

section Prepared

variable [Native] {w : Width} {N : Nat}

/-- What the kernel finds of a prepared request: the header it was published with, and an
address slot of zeros if the peer is wanted. -/
structure Ready (store : Storage w) (peer : PeerWanted) (x : PreparedRecvmsg w N × Memory) :
    Prop where
  staged : x.1.region.Staged store N
  peerEq : x.1.peer = peer
  header : x.1.region.header x.2 = x.1.region.headerFor (peer == .yes)
  slot : peer = .yes →
    Bytes.load x.2.bytes x.1.region.name.toNat sizeofSockAddrIn = List.replicate 16 0

/-- Descriptors lie apart from the header and from the address. -/
theorem StagedRegion.call_vec_outside {region : StagedRegion w} {store : Storage w}
    {count : Nat} (h : region.Staged store count) (m : Memory) (index : Fin region.count)
    (vec : w.IoVec) :
    region.header (region.call m (.writeDescriptor index vec)) = region.header m ∧
      Bytes.load (region.call m (.writeDescriptor index vec)).bytes region.name.toNat
          sizeofSockAddrIn =
        Bytes.load m.bytes region.name.toNat sizeofSockAddrIn := by
  obtain ⟨hvecs, -⟩ := h.order
  refine ⟨Width.MsgHdr.load_congr (call_outside (Or.inl ?_)), call_name h m _⟩
  simp only [callRange]
  omega

/-- Calls that write descriptors leave the header and the address. -/
theorem StagedRegion.calls_vec_outside {region : StagedRegion w} {store : Storage w}
    {count : Nat} (h : region.Staged store count) {cs : List (RegionCall w region.count)}
    (hcs : ∀ c ∈ cs, ∃ index vec, c = .writeDescriptor index vec) (m : Memory) :
    region.header (region.calls cs m) = region.header m ∧
      Bytes.load (region.calls cs m).bytes region.name.toNat sizeofSockAddrIn =
        Bytes.load m.bytes region.name.toNat sizeofSockAddrIn := by
  induction cs generalizing m with
  | nil => exact ⟨rfl, rfl⟩
  | cons c cs ih =>
      obtain ⟨index, vec, rfl⟩ := hcs c List.mem_cons_self
      obtain ⟨hheader, hslot⟩ := call_vec_outside h m index vec
      obtain ⟨hheader', hslot'⟩ := ih (fun c hc => hcs c (List.mem_cons_of_mem _ hc))
        (region.call m (.writeDescriptor index vec))
      exact ⟨hheader'.trans hheader, hslot'.trans hslot⟩

/-- Stamping the descriptors keeps the request ready. -/
theorem Ready.calls {store : Storage w} {peer : PeerWanted} {p : PreparedRecvmsg w N} {m : Memory}
    (h : Ready store peer (p, m)) {cs : List (RegionCall w p.region.count)}
    (hcs : ∀ c ∈ cs, ∃ index vec, c = .writeDescriptor index vec) :
    Ready store peer (p, p.region.calls cs m) := by
  obtain ⟨hheader, hslot⟩ := StagedRegion.calls_vec_outside h.staged hcs m
  exact ⟨h.staged, h.peerEq, hheader.trans h.header, fun hpeer => hslot.trans (h.slot hpeer)⟩

/-- Publishing makes the request ready, whatever the storage holds. -/
theorem ready_publish {store : Storage w} {peer : PeerWanted} {p : PreparedRecvmsg w N}
    (h : p.region.Staged store N) (hpeer : p.peer = peer) (m : Memory) :
    Ready store peer (p, p.publish m) := by
  subst hpeer
  refine ⟨h, rfl, ?_, fun hyes => ?_⟩
  · unfold PreparedRecvmsg.publish
    cases hpeer : p.peer <;> exact StagedRegion.header_publish _ _
  · unfold PreparedRecvmsg.publish
    rw [hyes]
    have hkept := StagedRegion.call_name h (p.region.writeName SockAddrIn.default m)
      (.publishHeader true)
    have hzero := StagedRegion.call_name h m (.writeName SockAddrIn.default)
    exact hkept.trans (hzero.trans SockAddrIn.toBytes_default)

/-- An edit keeps the request ready. -/
theorem Ready.edit {store : Storage w} {peer : PeerWanted} {x : PreparedRecvmsg w N × Memory}
    (h : Ready store peer x) (e : RecvmsgEdit N) : Ready store peer (e.apply x) := by
  cases e with
  | withLens lens => exact h.calls (descriptorCalls_only _ _)
  | refusedPush ring id => exact ⟨h.staged, h.peerEq, h.header, h.slot⟩

theorem Ready.edits {store : Storage w} {peer : PeerWanted} {x : PreparedRecvmsg w N × Memory}
    (h : Ready store peer x) (es : List (RecvmsgEdit N)) :
    Ready store peer (es.foldl (fun x e => e.apply x) x) := by
  induction es generalizing x with
  | nil => exact h
  | cons e es ih => exact ih (h.edit e)

/-- A request whose storage is accepted is ready. -/
theorem ready_new {fd : RawFd} {bufs : Fin N → Storage w} {store : Storage w} {peer : PeerWanted}
    {flags : MsgFlags} {m m' : Memory} {p : PreparedRecvmsg w N}
    (h : PreparedRecvmsg.new fd bufs store peer flags m = (.ok p, m')) :
    Ready store peer (p, m') := by
  unfold PreparedRecvmsg.new PreparedRecvmsg.build at h
  split at h
  · cases h
  next region m1 hstage =>
    cases h
    refine ready_publish ?_ ?_ _
    · exact stage_staged hstage
    · rfl

end Prepared

/-! ### After the kernel -/

/-- The address slot as the kernel leaves it: the bytes it wrote, and zeros. -/
def slotBytes (name : List UInt8) : List UInt8 :=
  name.take 16 ++ (List.replicate 16 0).drop (name.take 16).length

/-- Sixteen bytes fill the slot. -/
theorem slotBytes_whole {name : List UInt8} (h : name.length = 16) : slotBytes name = name := by
  rw [slotBytes, List.take_of_length_le (Nat.le_of_eq h), h]
  exact List.append_nil _

section Completed

variable [Native] {w : Width} {N : Nat} {store : Storage w} {peer : PeerWanted}

/-- What the kernel has left in the header and in the address slot. -/
structure Written (region : StagedRegion w) (peer : PeerWanted) (reported : UInt32)
    (name : List UInt8) (flags : Int32) (m : Memory) : Prop where
  flags : (region.header m).msgFlags = flags
  namelen : peer = .yes → (region.header m).msgNamelen = reported
  slot : peer = .yes →
    Bytes.load m.bytes region.name.toNat sizeofSockAddrIn = slotBytes name

/-- The last two writes of the kernel: the length of the control data, and the flags. -/
theorem kernelTail (addr : Nat) (controllen : Usize w) (flags : Int32) (m : Memory) :
    let m' := (m.write (addr + 5 * w.bytes) (usizeBytes controllen)).write (addr + 6 * w.bytes)
      (i32Bytes flags)
    (Width.MsgHdr.load w m'.bytes addr).msgFlags = flags ∧
      ∀ start len, start + len ≤ addr + 5 * w.bytes ∨ addr + 7 * w.bytes ≤ start →
        Bytes.load m'.bytes start len = Bytes.load m.bytes start len := by
  have hbytes := w.bytes_cases
  intro m'
  constructor
  · have hself := Bytes.load_store_self
      (m.write (addr + 5 * w.bytes) (usizeBytes controllen)).bytes (addr + 6 * w.bytes)
      (i32Bytes flags)
    rw [length_i32Bytes] at hself
    exact (congrArg i32Value hself).trans (i32Value_i32Bytes flags)
  · intro start len h
    refine (Bytes.load_store_disjoint ?_).trans (Bytes.load_store_disjoint ?_)
    · rw [length_i32Bytes]
      omega
    · rw [length_usizeBytes]
      omega

theorem Ready.written {p : PreparedRecvmsg w N} {m : Memory} (h : Ready store peer (p, m))
    {result : Int32} {nonneg : 0 ≤ result} {reported : UInt32} {name : List UInt8}
    {whole : name.length = reported.toNat} {flags : Int32} {controllen : Usize w} :
    Written p.region peer reported name flags
      ((KernelOutcome.done result nonneg reported name whole flags controllen).apply
        p.region.hdr.toNat m) := by
  have hbytes := w.bytes_cases
  have hheader : Width.MsgHdr.load w m.bytes p.region.hdr.toNat =
      p.region.headerFor (peer == .yes) := h.header
  simp only [KernelOutcome.apply, hheader, StagedRegion.headerFor_msgName,
    StagedRegion.headerFor_msgNamelen]
  cases peer with
  | no =>
      obtain ⟨hflags, -⟩ := kernelTail p.region.hdr.toNat controllen flags m
      exact ⟨hflags, nofun, nofun⟩
  | yes =>
      have hname := StagedRegion.name_ne_zero h.staged
      have horder : p.region.hdr.toNat + 7 * w.bytes ≤ p.region.name.toNat := by
        obtain ⟨hvecs, hname⟩ := h.staged.order
        exact Nat.le_trans hvecs (Nat.le_trans (Nat.le_add_right _ _) hname)
      have hyes : (PeerWanted.yes == PeerWanted.yes) = true := rfl
      simp only [hyes, if_true, if_neg hname]
      -- The memory between the address and the last two writes.
      let m1 := m.write p.region.name.toNat (name.take 16)
      let m2 := m1.write (p.region.hdr.toNat + w.bytes) (u32Bytes reported)
      obtain ⟨hflags, houtside⟩ := kernelTail p.region.hdr.toNat controllen flags m2
      refine ⟨hflags, fun _ => ?_, fun _ => ?_⟩
      · have hself := Bytes.load_store_self m1.bytes (p.region.hdr.toNat + w.bytes)
          (u32Bytes reported)
        rw [length_u32Bytes] at hself
        have hkept := (houtside (p.region.hdr.toNat + w.bytes) 4 (by omega)).trans hself
        exact (congrArg u32Value hkept).trans (u32Value_u32Bytes reported)
      · have hlen : (name.take 16).length ≤ sizeofSockAddrIn := List.length_take_le _ _
        have hstart : Bytes.load m1.bytes p.region.name.toNat sizeofSockAddrIn =
            name.take 16 ++
              (Bytes.load m.bytes p.region.name.toNat sizeofSockAddrIn).drop
                (name.take 16).length := Bytes.load_store_start hlen
        have hkept : Bytes.load m2.bytes p.region.name.toNat sizeofSockAddrIn =
            Bytes.load m1.bytes p.region.name.toNat sizeofSockAddrIn :=
          Bytes.load_store_disjoint (by rw [length_u32Bytes]; omega)
        rw [h.slot rfl] at hstart
        exact (houtside _ _ (by omega)).trans (hkept.trans hstart)

end Completed

/-! ### The report -/

/-- The SQE names the header. -/
theorem recvmsg_sqe_addr {w : Width} {N : Nat} (p : PreparedRecvmsg w N) (ring : RingId)
    (id : RequestId) :
    (p.intoPending ring id).1.addr.toNat = p.region.hdr.toNat := toNat_ptr_asU64 p.region.hdr

section Report

variable [Native] {w : Width} {N : Nat}

/-- What a request reports: `received` and `peer`. -/
def RecvmsgRun.report (checked : Bool) (self : RecvmsgRun w N) (m : Memory) :
    Option (Option (Except Error Received) × PeerAddress) :=
  (self.run m).map fun x => (x.1.received checked x.2, x.1.peer x.2)

/-- The report on an outcome of the kernel. -/
def KernelOutcome.report (checked : Bool) (peer : PeerWanted) :
    KernelOutcome w → Option (Except Error Received) × PeerAddress
  | .failed result _ =>
      (if checked && result == Int32.minValue then none
        else some (.error (.completion (.failed ⟨-result⟩))), .none)
  | .done result _ reported name _ flags _ =>
      (some (.ok ⟨result.toUInt32, ⟨flags.toUInt32⟩⟩),
        match peer with
        | .no => .none
        | .yes =>
            let addr := SockAddrIn.ofBytes (slotBytes name)
            if reported = 0 then .none
            else if reported > RESERVED_NAME_LEN then .truncated reported RESERVED_NAME_LEN
            else if decide (reported < RESERVED_NAME_LEN) || addr.sinFamily != AF_INET_FAMILY then
              .other addr.sinFamily reported
            else .v4 addr)

theorem new_isOk (fd : RawFd) (bufs : Fin N → Storage w) (store : Storage w) (peer : PeerWanted)
    (flags : MsgFlags) (m : Memory) :
    (PreparedRecvmsg.new fd bufs store peer flags m).1.isOk =
      (StagedRegion.stage store N m).1.isOk := by
  unfold PreparedRecvmsg.new PreparedRecvmsg.build
  split
  next hstage => exact (congrArg (fun x => x.1.isOk) hstage).symm
  next hstage => exact (congrArg (fun x => x.1.isOk) hstage).symm

/-- A failed receive has neither a count nor a peer. -/
theorem completed_failed (checked : Bool) {c : RecvmsgCompleted w N} (h : c.result < 0)
    (m : Memory) :
    c.received checked m =
        (if checked && c.result == Int32.minValue then none
          else some (.error (.completion (.failed ⟨-c.result⟩)))) ∧
      c.peer m = .none := by
  constructor
  · rw [RecvmsgCompleted.received, Error.fromFailedCqe, if_pos h]
    split <;> rfl
  · rw [RecvmsgCompleted.peer, RecvmsgCompleted.failed, decide_eq_true h]
    rfl

theorem completed_received (checked : Bool) {c : RecvmsgCompleted w N} (h : 0 ≤ c.result)
    (m : Memory) :
    c.received checked m =
      some (.ok ⟨c.result.toUInt32, ⟨(c.header m).msgFlags.toUInt32⟩⟩) := by
  rw [RecvmsgCompleted.received, Error.fromFailedCqe, if_neg (Int32.not_lt.mpr h)]
  rfl

/-- The peer of a receive that succeeded, from the header and the address slot. -/
theorem completed_peer {c : RecvmsgCompleted w N} (h : 0 ≤ c.result) (m : Memory) :
    c.peer m =
      match c.wanted with
      | .no => .none
      | .yes =>
          let reported := (c.header m).msgNamelen
          let addr := c.region.stagedName m
          if reported = 0 then .none
          else if reported > RESERVED_NAME_LEN then .truncated reported RESERVED_NAME_LEN
          else if decide (reported < RESERVED_NAME_LEN) || addr.sinFamily != AF_INET_FAMILY then
            .other addr.sinFamily reported
          else .v4 addr := by
  rw [RecvmsgCompleted.peer, RecvmsgCompleted.failed, decide_eq_false (Int32.not_lt.mpr h)]
  cases c.wanted <;> rfl

/-- What `received` and `peer` say of a ready request after the kernel's outcome. -/
theorem Ready.report {store : Storage w} {peer : PeerWanted} {p : PreparedRecvmsg w N}
    {m : Memory} (h : Ready store peer (p, m)) (checked : Bool) (outcome : KernelOutcome w) :
    let m' := outcome.apply p.region.hdr.toNat m
    let completed : RecvmsgCompleted w N :=
      { bufs := p.bufs, region := p.region, result := outcome.result, wanted := p.peer }
    (completed.received checked m', completed.peer m') = outcome.report checked peer := by
  have hpeer : p.peer = peer := h.peerEq
  subst hpeer
  intro m' completed
  cases outcome with
  | failed result neg =>
      obtain ⟨hreceived, hnone⟩ := completed_failed checked (c := completed) neg m'
      rw [hreceived, hnone]
      rfl
  | done result nonneg reported name whole flags controllen =>
      -- everything that is read was written for this request, by its owner or by the kernel
      have hwritten : Written p.region p.peer reported name flags m' := h.written
      rw [completed_received checked (c := completed) nonneg m',
        completed_peer (c := completed) nonneg m']
      refine Prod.ext ?_ ?_
      · have hflags : (completed.header m').msgFlags = flags := hwritten.flags
        rw [hflags]
        rfl
      · simp only [KernelOutcome.report]
        have hwanted : completed.wanted = p.peer := rfl
        rw [hwanted]
        cases hpeer : p.peer with
        | no => rfl
        | yes =>
            have hnamelen : (completed.header m').msgNamelen = reported := hwritten.namelen hpeer
            have hslot : completed.region.stagedName m' = SockAddrIn.ofBytes (slotBytes name) :=
              congrArg SockAddrIn.ofBytes (hwritten.slot hpeer)
            simp only [hnamelen, hslot]

/-- A request reports on the kernel's outcome, if its storage is accepted. -/
theorem RecvmsgRun.report_eq (checked : Bool) (r : RecvmsgRun w N) (m : Memory) :
    r.report checked m =
      if (StagedRegion.stage r.store N m).1.isOk then some (r.outcome.report checked r.peer)
      else none := by
  rw [← new_isOk r.fd r.bufs r.store r.peer r.flags m, report, run]
  cases hnew : PreparedRecvmsg.new r.fd r.bufs r.store r.peer r.flags m with
  | mk res m1 =>
      cases res with
      | error e => rfl
      | ok p =>
          have hready := (ready_new hnew).edits r.edits
          obtain ⟨p', m2, hx⟩ : ∃ p' m2, r.edits.foldl (fun x e => e.apply x) (p, m1) = (p', m2) :=
            ⟨_, _, rfl⟩
          rw [hx] at hready
          -- the receipt is the ticket's own, so that it is accepted
          have hredeem : (p'.intoPending r.ring r.id).2.redeem
              ⟨r.ring, r.id, r.outcome.result, r.cqeFlags⟩ =
                .ok { bufs := p'.bufs, region := p'.region, result := r.outcome.result,
                      wanted := p'.peer } := by
            simp [PendingRecvmsg.redeem, Receipt.belongsTo, PreparedRecvmsg.intoPending]
          have hreport := hready.report checked r.outcome
          simp only [hx, hredeem, recvmsg_sqe_addr]
          exact congrArg some hreport

/-- The kernel has received `x.bytes` bytes, with the flags `x.flags`. -/
def KernelOutcome.Reports (x : Received) : KernelOutcome w → Prop
  | .failed _ _ => False
  | .done result _ _ _ _ flags _ => x = ⟨result.toUInt32, ⟨flags.toUInt32⟩⟩

/-- The kernel has written the whole IPv4 address `a`. -/
def KernelOutcome.WritesV4 (a : SockAddrIn) : KernelOutcome w → Prop
  | .failed _ _ => False
  | .done _ _ reported name _ _ _ =>
      reported = 16 ∧ u16Value (name.take 2) = AF_INET_FAMILY ∧ a.toBytes = name

theorem KernelOutcome.report_v4 (checked : Bool) (peer : PeerWanted) (outcome : KernelOutcome w)
    (a : SockAddrIn) :
    (outcome.report checked peer).2 = .v4 a ↔ peer = .yes ∧ outcome.WritesV4 a := by
  cases outcome with
  | failed result neg => simp [report, WritesV4]
  | done result nonneg reported name whole flags controllen =>
      cases peer with
      | no => simp [report]
      | yes =>
          simp only [report, WritesV4, true_and]
          constructor
          · intro h
            split at h
            · cases h
            · split at h
              · cases h
              · split at h
                · cases h
                next hlow hhigh hother =>
                  -- Neither longer nor shorter than the slot: the name fills it.
                  cases h
                  have hparts := Bool.or_eq_false_iff.mp (Bool.not_eq_true _ ▸ hother)
                  have hge : RESERVED_NAME_LEN ≤ reported :=
                    UInt32.not_lt.mp (of_decide_eq_false hparts.1)
                  have hsize : reported = 16 := UInt32.le_antisymm (UInt32.not_lt.mp hhigh) hge
                  have hlen : name.length = 16 := by rw [whole, hsize]; rfl
                  have hslot := slotBytes_whole hlen
                  have hfamily : (SockAddrIn.ofBytes (slotBytes name)).sinFamily =
                      AF_INET_FAMILY := of_not_not fun hne =>
                    absurd hparts.2 (by rw [bne_iff_ne.mpr hne]; decide)
                  rw [hslot] at hfamily
                  refine ⟨hsize, hfamily, ?_⟩
                  rw [hslot]
                  exact SockAddrIn.toBytes_ofBytes hlen
          · rintro ⟨rfl, hfamily, hbytes⟩
            have hslot := slotBytes_whole whole
            have haddr : SockAddrIn.ofBytes (slotBytes name) = a := by
              rw [hslot, ← hbytes, SockAddrIn.ofBytes_toBytes]
            have hsin : a.sinFamily = AF_INET_FAMILY := by
              rw [← haddr, hslot]
              exact hfamily
            simp [haddr, hsin, RESERVED_NAME_LEN, sizeofSockAddrIn]

/-- A receive reports what the kernel wrote, and nothing that the storage held before. -/
structure RecvmsgLaw (checked : Bool) (r : RecvmsgRun w N) : Prop where
  /-- The request comes to its end whenever the storage is staged. -/
  runs : ∀ m, (r.run m).isSome = (StagedRegion.stage r.store N m).1.isOk
  fresh : ∀ m₁ m₂, r.report checked m₁ = r.report checked m₂
  received : ∀ m c m', r.run m = some (c, m') → ∀ x,
    c.received checked m' = some (.ok x) ↔
      r.outcome.Reports x
  failed : r.outcome.result < 0 → ∀ m c m', r.run m = some (c, m') →
    (∀ x, c.received checked m' ≠ some (.ok x)) ∧ c.peer m' = .none
  v4 : ∀ m c m', r.run m = some (c, m') → ∀ a,
    c.peer m' = .v4 a ↔ r.peer = .yes ∧ r.outcome.WritesV4 a

theorem KernelOutcome.report_received (checked : Bool) (peer : PeerWanted)
    (outcome : KernelOutcome w) (x : Received) :
    (outcome.report checked peer).1 = some (.ok x) ↔ outcome.Reports x := by
  cases outcome with
  | failed result neg =>
      simp only [report, Reports, iff_false]
      split <;> exact nofun
  | done result nonneg reported name whole flags controllen =>
      simp only [report, Reports, Option.some.injEq, Except.ok.injEq]
      exact eq_comm

theorem RecvmsgRun.report_of_run {checked : Bool} {r : RecvmsgRun w N} {m m' : Memory}
    {c : RecvmsgCompleted w N} (h : r.run m = some (c, m')) :
    (c.received checked m', c.peer m') = r.outcome.report checked r.peer := by
  have heq := r.report_eq checked m
  rw [report, h, Option.map_some] at heq
  split at heq
  · exact Option.some.inj heq
  · cases heq

/-- A request that was edited, refused and pushed again reports what a fresh one does, and its
result is what the kernel left in the message, for every outcome. -/
theorem recvmsgLaw (checked : Bool) (r : RecvmsgRun w N) : RecvmsgLaw checked r := by
  constructor
  case runs =>
    intro m
    have heq := congrArg Option.isSome (r.report_eq checked m)
    rw [RecvmsgRun.report, Option.isSome_map] at heq
    rw [heq]
    cases (StagedRegion.stage r.store N m).1 <;> rfl
  case fresh =>
    intro m₁ m₂
    rw [r.report_eq checked m₁, r.report_eq checked m₂, stage_congr r.store N m₁ m₂]
  case received =>
    intro m c m' h x
    rw [← KernelOutcome.report_received checked r.peer, ← RecvmsgRun.report_of_run h]
  case failed =>
    intro hneg m c m' h
    have hreport : (c.received checked m', c.peer m') = r.outcome.report checked r.peer :=
      RecvmsgRun.report_of_run h
    cases houtcome : r.outcome with
    | done result nonneg reported name whole flags controllen =>
        -- an outcome that is done has no negative result
        rw [houtcome] at hneg
        exact absurd hneg (Int32.not_lt.mpr nonneg)
    | failed result neg =>
        rw [houtcome] at hreport
        refine ⟨fun x hx => ?_, congrArg Prod.snd hreport⟩
        have hfst := (congrArg Prod.fst hreport).symm.trans hx
        exact (KernelOutcome.report_received checked r.peer _ x).mp hfst
  case v4 =>
    intro m c m' h a
    rw [← KernelOutcome.report_v4 checked, ← RecvmsgRun.report_of_run h]

end Report

end Ququmatz
