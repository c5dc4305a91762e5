import GeoRaft.Cluster.Packets
import GeoRaft.Node.Loop
import GeoRaft.Persist.Log
import GeoRaft.Transport.Framing
import GeoRaft.Wire.Codec

/-!
A message from handler to handler.

A handler packs a message into a `pkt_t` that holds anything, `socket_send` writes the struct
as it lies in memory, `socket_receive` fills another one, and the loop of the receiver unpacks
it. However the connection cuts the bytes, what the receiver handles is what was sent.
-/

namespace GeoRaft

open Word Octets Files

/-! ### A packet in memory -/

/-- The bytes of a `pkt_t`. Behind the code there are three of padding, whatever they hold. -/
def WirePkt.layout (pkt : WirePkt) (padding : List UInt8) : List UInt8 :=
  hostWord pkt.header.dst ++ (hostWord pkt.header.src ++ (hostWord pkt.header.payloadN ++
    (UInt8.ofNat pkt.header.code :: (padding ++ pkt.payload))))

/-- The struct that these bytes are read into. -/
def RawPkt.wire (raw : RawPkt) : WirePkt where
  header := {
    dst := ofHostWord (readAt 0 4 raw.bytes)
    src := ofHostWord (readAt 4 4 raw.bytes)
    payloadN := ofHostWord (readAt 8 4 raw.bytes)
    code := (raw.bytes.getD 12 0).toNat }
  payload := raw.bytes.drop 16
  size := by
    rw [List.length_drop, raw.size]
    rfl

/-- `raw` is the memory of `pkt`. -/
def RawPkt.Holds (raw : RawPkt) (pkt : WirePkt) : Prop :=
  ∃ padding : List UInt8, padding.length = 3 ∧ raw.bytes = pkt.layout padding

/-- The header is of the types of C. -/
structure PktHeader.Fits (header : PktHeader) : Prop where
  dst : header.dst < 2 ^ 32
  src : header.src < 2 ^ 32
  payloadN : header.payloadN < 2 ^ 32
  code : header.code < 2 ^ 8

/-- What was written as it lay in memory is read as it was. -/
theorem RawPkt.wire_eq {raw : RawPkt} {pkt : WirePkt} (h : raw.Holds pkt) (hfits : pkt.header.Fits) :
    raw.wire = pkt := by
  obtain ⟨padding, hpad, hbytes⟩ := h
  obtain ⟨⟨dst, src, payloadN, code⟩, payload, hsize⟩ := pkt
  obtain ⟨hdst, hsrc, hn, hcode⟩ := hfits
  have hlayout : raw.bytes = hostWord dst ++ (hostWord src ++ (hostWord payloadN ++
      (UInt8.ofNat code :: (padding ++ payload)))) := hbytes
  have h0 : readAt 0 4 raw.bytes = hostWord dst := by
    rw [hlayout]
    exact readAt_append [] (hostWord dst) _
  have h4 : readAt 4 4 raw.bytes = hostWord src := by
    rw [hlayout]
    exact readAt_append (hostWord dst) (hostWord src) _
  have h8 : readAt 8 4 raw.bytes = hostWord payloadN := by
    rw [hlayout, ← List.append_assoc]
    exact readAt_append (hostWord dst ++ hostWord src) (hostWord payloadN) _
  have h12 : raw.bytes.getD 12 0 = UInt8.ofNat code := by
    rw [hlayout]
    rfl
  have h16 : raw.bytes.drop 16 = payload := by
    have hfront : raw.bytes = (hostWord dst ++ (hostWord src ++ (hostWord payloadN ++
        (UInt8.ofNat code :: padding)))) ++ payload := by
      rw [hlayout]
      simp only [List.append_assoc, List.cons_append]
    have hlen : (hostWord dst ++ (hostWord src ++ (hostWord payloadN ++
        (UInt8.ofNat code :: padding)))).length = 16 := by
      simp only [List.length_append, List.length_cons, length_hostWord, hpad]
    rw [hfront, ← hlen, List.drop_left]
  have hbyte : (UInt8.ofNat code).toNat = code := UInt8.toNat_ofNat_of_lt hcode
  unfold RawPkt.wire
  simp only [h0, h4, h8, h12, h16, ofHostWord_hostWord hdst, ofHostWord_hostWord hsrc,
    ofHostWord_hostWord hn, hbyte]

/-! ### A message in a packet -/

/-- The packet that is handed to `socket_send`, in a struct that held `blank` before. -/
def Pkt.wire (pkt : Pkt) (blank : WirePkt) : WirePkt := (pkt.rpc.pack blank pkt.dst pkt.src).2

/-- The message that the loop of the receiver finds in a packet. -/
def WirePkt.unpack (pkt : WirePkt) : Option Pkt :=
  ((RpcCode.ofVal pkt.header.code).bind (Rpc.unpack pkt)).map fun rpc =>
    ⟨pkt.header.dst, pkt.header.src, rpc⟩

theorem RpcCode.val_lt (code : RpcCode) : code.val < 2 ^ 8 := by cases code <;> decide

theorem Pkt.wire_eq {pkt : Pkt} (h : pkt.Fits) (blank : WirePkt) :
    (pkt.wire blank).header.Fits ∧ (pkt.wire blank).unpack = some pkt := by
  have hback := Rpc.unpack_pack blank pkt.dst pkt.src h.rpc h.nEntries
  have hsize := Rpc.size_le h.nEntries
  obtain ⟨hn, -⟩ := WirePkt.fill_eq blank pkt.dst pkt.src pkt.rpc.code pkt.rpc.fields hsize
  unfold Pkt.wire
  rw [Rpc.pack_eq blank pkt.dst pkt.src h.nEntries] at hback ⊢
  dsimp only at hback ⊢
  constructor
  · refine ⟨h.dst, h.src, ?_, ?_⟩
    · rw [hn]
      unfold Rpc.size maxPayload at hsize
      omega
    · exact RpcCode.val_lt _
  · have hcode : (blank.fill pkt.dst pkt.src pkt.rpc.code pkt.rpc.fields).header.code =
        pkt.rpc.code.val := rfl
    rw [WirePkt.unpack, hcode, RpcCode.ofVal_val, Option.bind_some, hback]
    rfl

/-- The loop hands what it finds to the handlers. -/
theorem Node.raftHandleWire_unpack {σ : Type} [Storage σ] (env : Env) (node : Node σ) {wire : WirePkt}
    {pkt : Pkt} (h : wire.unpack = some pkt) :
    node.raftHandleWire env wire = node.raftHandleRpc env pkt := by
  obtain ⟨rpc, hrpc, rfl⟩ := Option.map_eq_some_iff.mp h
  rw [Node.raftHandleWire, WirePkt.rpc, hrpc]

/-! ### Messages on a connection -/

/-- The struct that a message was packed into, as it lies in memory. -/
def RawPkt.Carries (raw : RawPkt) (pkt : Pkt) : Prop := ∃ blank, raw.Holds (pkt.wire blank)

theorem RawPkt.Carries.unpack {raw : RawPkt} {pkt : Pkt} (h : raw.Carries pkt) (hfits : pkt.Fits) :
    raw.wire.unpack = some pkt := by
  obtain ⟨blank, hholds⟩ := h
  obtain ⟨hheader, hback⟩ := pkt.wire_eq hfits blank
  rw [RawPkt.wire_eq hholds hheader, hback]

theorem unpack_all {raws : List RawPkt} {pkts : List Pkt} (h : List.Forall₂ RawPkt.Carries raws pkts)
    (hfits : ∀ pkt ∈ pkts, pkt.Fits) :
    raws.map (fun raw => raw.wire.unpack) = pkts.map some := by
  induction h with
  | nil => rfl
  | cons hcarries hrest ih =>
      rw [List.map_cons, List.map_cons, hcarries.unpack (hfits _ List.mem_cons_self),
        ih fun pkt hpkt => hfits pkt (List.mem_cons_of_mem _ hpkt)]

variable {D : Deployment} {ok : Cluster → Action → Cluster → Prop} {c : Cluster} {s : Stream}
  {pkts : List Pkt}

/-- In every run of the cluster, whatever messages a node sends over one connection: the packet
that the other end receives as its `i`-th is the `i`-th of them, and that is what its loop hands
to the handlers. -/
theorem rpc_delivery (hok : ∀ {c a c'}, ok c a c' → a.Fits) (hc : Cluster.Run D ok c)
    (hpkts : ∀ pkt ∈ pkts, pkt ∈ c.world.sent) (hs : s.Reachable)
    (hsent : List.Forall₂ RawPkt.Carries s.sent pkts) {i : ℕ} {raw : RawPkt}
    (hi : s.returned[i]? = some raw) :
    ∃ pkt, pkts[i]? = some pkt ∧ raw.wire.unpack = some pkt ∧ ∀ env (node : Node Disk),
      node.raftHandleWire env raw.wire = node.raftHandleRpc env pkt := by
  have hfits := (Cluster.Run.fits hok hc).sent
  have hread := unpack_all hsent fun pkt hpkt => hfits pkt (hpkts pkt hpkt)
  obtain ⟨rest, hrest⟩ := Stream.packet_framing hs
  have hlt := (List.getElem?_eq_some_iff.mp hi).1
  have hat : s.sent[i]? = some raw := by rw [← hrest, List.getElem?_append_left hlt, hi]
  have hboth := congrArg (·[i]?) hread
  simp only [List.getElem?_map, hat, Option.map_some] at hboth
  cases hpkt : pkts[i]? with
  | none =>
      rw [hpkt] at hboth
      cases hboth
  | some pkt =>
      rw [hpkt] at hboth
      have hunpack : raw.wire.unpack = some pkt := Option.some.inj hboth
      exact ⟨pkt, rfl, hunpack, fun env node => node.raftHandleWire_unpack env hunpack⟩

/-- The request for a vote that node 0 sends to node 1 in its first term, or its second. -/
def askedFirst (term : ℕ) : Pkt := ⟨1, 0, .requestVoteReq ⟨term, 0, 4294967295, 0⟩⟩

theorem exists_raw (pkt : Pkt) : ∃ raw : RawPkt, raw.bytes = (pkt.wire .blank).layout [0, 0, 0] :=
  ⟨⟨_, by
    simp only [List.length_append, List.length_cons, length_hostWord, WirePkt.size]
    rfl⟩, rfl⟩

/-- Two requests for votes go over one connection, in pieces that are not those they are read
in, and come out as what they were. -/
theorem rpc_delivery_votes : ∃ c, Cluster.Run (.plain 3 (by decide)) (fun _ a _ => a.Fits) c ∧
    (∀ t ∈ [1, 2], askedFirst t ∈ c.world.sent) ∧ ∃ s : Stream, s.Reachable ∧
      s.returned.map (fun raw => raw.wire.unpack) = [some (askedFirst 1), some (askedFirst 2)] := by
  have hrun : ∃ c, Cluster.Run (.plain 3 (by decide)) (fun _ a _ => a.Fits) c ∧
      ∀ t ∈ [1, 2], askedFirst t ∈ c.world.sent :=
    Cluster.Run.exists_of_actions (P := fun c => ∀ t ∈ [1, 2], askedFirst t ∈ c.world.sent)
      ([.timeout 0 ⟨0, 0⟩] ++ Action.execs 0 4 ++ [.timeout 0 ⟨0, 0⟩] ++ Action.execs 0 4)
      (by decide +kernel)
  obtain ⟨c, hc, hmem⟩ := hrun
  obtain ⟨first, hfirst⟩ := exists_raw (askedFirst 1)
  obtain ⟨second, hsecond⟩ := exists_raw (askedFirst 2)
  have hsent := (Stream.Reachable.send_split .refl rfl rfl first (k := 1000) (by decide)
    (by decide)).send_split rfl rfl second (k := 16) (by decide) (by decide)
  have hread := (hsent.read_split rfl rfl first second.bytes rfl (k := 24)
    (by decide) (by decide)).read_split rfl rfl second [] (List.append_nil _).symm (k := 1039)
      (by decide) (by decide)
  have hcarries : List.Forall₂ RawPkt.Carries [first, second] [askedFirst 1, askedFirst 2] :=
    .cons ⟨.blank, [0, 0, 0], rfl, hfirst⟩ (.cons ⟨.blank, [0, 0, 0], rfl, hsecond⟩ .nil)
  have hpkts : ∀ pkt ∈ [askedFirst 1, askedFirst 2], pkt ∈ c.world.sent := by
    simpa using hmem
  obtain ⟨pkt, hpkt, hunpack, -⟩ :=
    rpc_delivery (fun h => h) hc hpkts hread hcarries (i := 0) rfl
  obtain ⟨pkt', hpkt', hunpack', -⟩ :=
    rpc_delivery (fun h => h) hc hpkts hread hcarries (i := 1) rfl
  obtain rfl := Option.some.inj hpkt
  obtain rfl := Option.some.inj hpkt'
  refine ⟨c, hc, hmem, _, hread, ?_⟩
  show [first.wire.unpack, second.wire.unpack] = _
  rw [hunpack, hunpack']

end GeoRaft
