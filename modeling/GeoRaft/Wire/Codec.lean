import GeoRaft.Wire.Rpc

/-!
What packing and unpacking have to do with each other.

Packing puts the bytes of the fields at the start of the payload and leaves the
rest of it alone; unpacking, when it accepts, has read exactly the fields whose
bytes stand there. The two results on the wire format follow from these.
-/

namespace GeoRaft

open Word Octets

/-! ### Packing writes the bytes of the fields -/

theorem length_entries (entries : List LogEntry) :
    (bytesOf (entries.flatMap LogEntry.fields)).length = 16 * entries.length := by
  induction entries with
  | nil => rfl
  | cons entry entries ih =>
      rw [List.flatMap_cons, bytesOf_append, List.length_append, ih, List.length_cons]
      rw [show (bytesOf entry.fields).length = 16 from rfl]
      omega

namespace Rpc

/-- The length of a payload. -/
def size (rpc : Rpc) : ℕ := (bytesOf rpc.fields).length

theorem size_appendEntriesReq (req : AppendEntriesReq) :
    (appendEntriesReq req).size = 24 + 16 * req.nEntries := by
  rw [size, fields, bytesOf_append, List.length_append, length_entries]
  rfl

theorem size_le {rpc : Rpc} (h : rpc.nEntries ≤ maxAppendEntriesN) : rpc.size ≤ maxPayload := by
  cases rpc with
  | appendEntriesReq req =>
      rw [size_appendEntriesReq]
      simp only [nEntries, maxAppendEntriesN] at h
      unfold maxPayload
      omega
  | _ => exact Nat.le_of_ble_eq_true rfl

end Rpc

theorem WirePkt.fill_eq (pkt : WirePkt) (dst src : ℕ) (code : RpcCode) (fields : List Field)
    (h : (bytesOf fields).length ≤ maxPayload) :
    (pkt.fill dst src code fields).header.payloadN = (bytesOf fields).length ∧
      (pkt.fill dst src code fields).payload =
        bytesOf fields ++ pkt.payload.drop (bytesOf fields).length := by
  have := writeFields_zero pkt.payload fields (by rwa [pkt.size])
  simp [fill, this]

theorem rpcPackFields_eq (pkt : WirePkt) (dst src : ℕ) (code : RpcCode) (fields : List Field)
    (h : (bytesOf fields).length ≤ maxPayload) :
    rpcPackFields pkt dst src code fields = (0, pkt.fill dst src code fields) := by
  rw [rpcPackFields, if_neg]
  rw [(WirePkt.fill_eq pkt dst src code fields h).1]
  omega

theorem rpcPackAppendEntriesReq_eq (pkt : WirePkt) (dst src : ℕ) {req : AppendEntriesReq}
    (h : req.nEntries ≤ maxAppendEntriesN) :
    rpcPackAppendEntriesReq pkt dst src req =
      (0, pkt.fill dst src .callAppendEnt (Rpc.appendEntriesReq req).fields) := by
  have hsize : (Rpc.appendEntriesReq req).size ≤ maxPayload := Rpc.size_le h
  have hw : packEntries (pkt.fill dst src .callAppendEnt req.head).header.payloadN
      (pkt.fill dst src .callAppendEnt req.head).payload req.entries =
      writeFields 0 pkt.payload (Rpc.appendEntriesReq req).fields := by
    rw [packEntries_eq, Rpc.fields, writeFields_append]
    simp only [WirePkt.fill]
  have hn := (WirePkt.fill_eq pkt dst src .callAppendEnt (Rpc.appendEntriesReq req).fields hsize).1
  have hle : ¬(writeFields 0 pkt.payload (Rpc.appendEntriesReq req).fields).1 > maxPayload :=
    (hn.trans_le hsize).not_gt
  rw [rpcPackAppendEntriesReq, if_neg (by omega)]
  simp only [hw, if_neg hle]
  simp only [WirePkt.fill]

namespace Rpc

/-- All six pack functions: the fields of the message, and code 0. -/
theorem pack_eq (pkt : WirePkt) (dst src : ℕ) {rpc : Rpc} (h : rpc.nEntries ≤ maxAppendEntriesN) :
    rpc.pack pkt dst src = (0, pkt.fill dst src rpc.code rpc.fields) := by
  cases rpc with
  | appendEntriesReq req => exact rpcPackAppendEntriesReq_eq pkt dst src h
  | _ => exact rpcPackFields_eq _ _ _ _ _ (size_le h)

end Rpc

/-! ### Unpacking what was packed -/

theorem logEntryUnpack_append (front rest : List UInt8) {entry : LogEntry} (h : entry.Fits) :
    logEntryUnpack front.length (front ++ (bytesOf entry.fields ++ rest)) = entry := by
  obtain ⟨h₁, h₂, h₃, h₄⟩ := h
  have hbytes : bytesOf entry.fields ++ rest = ofU32 entry.term ++ (ofU32 entry.clientId ++
      (ofU32 entry.cmdSeqno ++ (ofU32 entry.cmd ++ rest))) := by
    simp [bytesOf, LogEntry.fields, Field.bytes]
  have hread := readU32Be_append front (bytesOf entry.fields ++ rest)
  have h0 := hread 0
  rw [add_zero] at h0
  rw [logEntryUnpack, h0, hread, hread, hread, hbytes]
  simp [readU32Be_ofU32 h₁, readU32Be_ofU32 h₂, readU32Be_ofU32 h₃, readU32Be_ofU32 h₄]

theorem unpackEntries_append (front rest : List UInt8) {entries : List LogEntry}
    (h : ∀ entry ∈ entries, entry.Fits) :
    unpackEntries front.length
      (front ++ (bytesOf (entries.flatMap LogEntry.fields) ++ rest)) entries.length = entries := by
  induction entries generalizing front with
  | nil => rfl
  | cons entry entries ih =>
      have hbuf : front ++ (bytesOf ((entry :: entries).flatMap LogEntry.fields) ++ rest) =
          front ++ (bytesOf entry.fields ++
            (bytesOf (entries.flatMap LogEntry.fields) ++ rest)) := by
        rw [List.flatMap_cons, bytesOf_append, List.append_assoc]
      have hnext : front.length + 16 = (front ++ bytesOf entry.fields).length := by
        rw [List.length_append]
        rfl
      rw [hbuf, List.length_cons, unpackEntries,
        logEntryUnpack_append front _ (h entry List.mem_cons_self), hnext, ← List.append_assoc,
        ih _ fun e he => h e (List.mem_cons_of_mem _ he)]

theorem AppendEntriesReq.bytesOf_head (req : AppendEntriesReq) (rest : List UInt8) :
    bytesOf req.head ++ rest =
      ofU32 req.term ++ (ofU32 req.leaderId ++ (ofU32 req.prevLogIdx ++ (ofU32 req.prevLogTerm ++
        (ofU32 (u32 req.leaderCommit) ++ (ofU32 req.nEntries ++ rest))))) := by
  simp [bytesOf, head, Field.bytes]

theorem rpcUnpackAppendEntriesReq_eq {pkt : WirePkt} {req : AppendEntriesReq}
    {rest : List UInt8} (hfit : (Rpc.appendEntriesReq req).Fits)
    (hmax : req.nEntries ≤ maxAppendEntriesN)
    (hn : pkt.header.payloadN = (Rpc.appendEntriesReq req).size)
    (hp : pkt.payload = bytesOf (Rpc.appendEntriesReq req).fields ++ rest) :
    rpcUnpackAppendEntriesReq pkt = some req := by
  obtain ⟨h₁, h₂, h₃, h₄, h₅, hes⟩ := hfit
  rw [Rpc.size_appendEntriesReq] at hn
  have hnum : req.nEntries < 2 ^ 32 := lt_of_le_of_lt hmax (by decide)
  have hbuf : pkt.payload =
      bytesOf req.head ++ (bytesOf (req.entries.flatMap LogEntry.fields) ++ rest) := by
    rw [hp, Rpc.fields, bytesOf_append, List.append_assoc]
  have hentries : unpackEntries 24 pkt.payload req.nEntries = req.entries := by
    rw [hbuf]
    exact unpackEntries_append (bytesOf req.head) rest hes
  have hcount : readU32Be 20 pkt.payload = req.nEntries := by
    rw [hbuf, AppendEntriesReq.bytesOf_head]
    simp [readU32Be_ofU32 hnum]
  have hcommit : i32 (u32 req.leaderCommit) = req.leaderCommit := by
    rw [i32_u32, i32_of_fits h₅.1 h₅.2]
  rw [rpcUnpackAppendEntriesReq, if_neg (by omega)]
  simp only [hcount]
  rw [if_neg (by omega), if_neg (by unfold logEntryPackedSize; omega), hentries, hbuf,
    AppendEntriesReq.bytesOf_head]
  simp [readU32Be_ofU32 h₁, readU32Be_ofU32 h₂, readU32Be_ofU32 h₃, readU32Be_ofU32 h₄,
    readU32Be_ofU32 (u32_lt _), hcommit]

namespace Rpc

/-- An unpack function that gets the bytes of a message gives the message. -/
theorem unpack_eq {pkt : WirePkt} {rpc : Rpc} {rest : List UInt8} (hfit : rpc.Fits)
    (hmax : rpc.nEntries ≤ maxAppendEntriesN) (hn : pkt.header.payloadN = rpc.size)
    (hp : pkt.payload = bytesOf rpc.fields ++ rest) : unpack pkt rpc.code = some rpc := by
  cases rpc with
  | appendEntriesReq req =>
      rw [code, unpack, rpcUnpackAppendEntriesReq_eq hfit hmax hn hp, Option.map_some]
  | appendEntriesRes res =>
      obtain ⟨h₁, h₂, h₃⟩ := hfit
      have hn : pkt.header.payloadN = 9 := hn
      simp [code, unpack, rpcUnpackAppendEntriesRes, hn, hp, fields, AppendEntriesRes.fields,
        bytesOf, Field.bytes, readU32Be_ofU32 h₁, readU32Be_ofU32 h₂, readU8_ofNat h₃]
  | requestVoteReq req =>
      obtain ⟨h₁, h₂, h₃, h₄⟩ := hfit
      have hn : pkt.header.payloadN = 16 := hn
      simp [code, unpack, rpcUnpackRequestVoteReq, hn, hp, fields, RequestVoteReq.fields, bytesOf,
        Field.bytes, readU32Be_ofU32 h₁, readU32Be_ofU32 h₂, readU32Be_ofU32 h₃, readU32Be_ofU32 h₄]
  | requestVoteRes res =>
      obtain ⟨h₁, h₂⟩ := hfit
      have hn : pkt.header.payloadN = 5 := hn
      simp [code, unpack, rpcUnpackRequestVoteRes, hn, hp, fields, RequestVoteRes.fields, bytesOf,
        Field.bytes, readU32Be_ofU32 h₁, readU8_ofNat h₂]
  | procReq req =>
      obtain ⟨h₁, h₂, h₃⟩ := hfit
      have hn : pkt.header.payloadN = 12 := hn
      simp [code, unpack, rpcUnpackProcReq, hn, hp, fields, ProcReq.fields, bytesOf, Field.bytes,
        readU32Be_ofU32 h₁, readU32Be_ofU32 h₂, readU32Be_ofU32 h₃]
  | procRes res =>
      obtain ⟨h₁, h₂, h₃, h₄, h₅⟩ := hfit
      have hn : pkt.header.payloadN = 17 := hn
      simp [code, unpack, rpcUnpackProcRes, hn, hp, fields, ProcRes.fields, bytesOf, Field.bytes,
        readU32Be_ofU32 h₁, readU32Be_ofU32 h₂, readU8_ofNat h₃, readU32Be_ofU32 h₄,
        readU32Be_ofU32 h₅]

/-- What was packed comes out again. -/
theorem unpack_pack (pkt : WirePkt) (dst src : ℕ) {rpc : Rpc} (hfit : rpc.Fits)
    (hmax : rpc.nEntries ≤ maxAppendEntriesN) :
    unpack (rpc.pack pkt dst src).2 rpc.code = some rpc := by
  obtain ⟨hn, hp⟩ := WirePkt.fill_eq pkt dst src rpc.code rpc.fields (size_le hmax)
  rw [pack_eq pkt dst src hmax]
  exact unpack_eq hfit hmax hn hp

end Rpc

/-- Every message whose fields fit their types goes over the wire unchanged; a
request with more entries than the array of a request holds is not packed. -/
theorem wire_round_trip (pkt : WirePkt) (dst src : ℕ) (rpc : Rpc) (hfit : rpc.Fits) :
    (rpc.nEntries ≤ maxAppendEntriesN →
      (rpc.pack pkt dst src).1 = 0 ∧
        (rpc.pack pkt dst src).2.header.payloadN ≤ maxPayload ∧
        (∀ i ≥ (rpc.pack pkt dst src).2.header.payloadN,
          (rpc.pack pkt dst src).2.payload[i]? = pkt.payload[i]?) ∧
        Rpc.unpack (rpc.pack pkt dst src).2 rpc.code = some rpc) ∧
    (rpc.nEntries > maxAppendEntriesN → (rpc.pack pkt dst src).1 = -1) := by
  constructor
  · intro hmax
    have hsize := Rpc.size_le hmax
    obtain ⟨hn, hp⟩ := WirePkt.fill_eq pkt dst src rpc.code rpc.fields hsize
    have hback := Rpc.unpack_pack pkt dst src hfit hmax
    rw [Rpc.pack_eq pkt dst src hmax] at hback ⊢
    refine ⟨rfl, hn.trans_le hsize, fun i hi => ?_, hback⟩
    rw [hn] at hi
    rw [hp, List.getElem?_append_right hi, List.getElem?_drop, Nat.add_sub_cancel' hi]
  · intro hmax
    cases rpc with
    | appendEntriesReq req =>
        have hmany : req.nEntries > maxAppendEntriesN := hmax
        rw [Rpc.pack, rpcPackAppendEntriesReq, if_pos hmany]
    | _ => exact absurd hmax (Nat.not_lt_zero _)

/-- A request before whose entries nothing comes, and whose leader has committed nothing. -/
def firstEntries : AppendEntriesReq :=
  ⟨7, 1, 4294967295, 0, -1, [⟨6, 9, 1, 42⟩, ⟨7, 9, 2, 4294967295⟩]⟩

theorem wire_round_trip_entries :
    (Rpc.appendEntriesReq firstEntries).Fits ∧
      (Rpc.pack .blank 2 1 (.appendEntriesReq firstEntries)).1 = 0 ∧
      Rpc.unpack (Rpc.pack .blank 2 1 (.appendEntriesReq firstEntries)).2 .callAppendEnt =
        some (.appendEntriesReq firstEntries) := by
  have hentries : ∀ entry ∈ firstEntries.entries, entry.Fits := by
    intro entry hmem
    simp only [firstEntries, List.mem_cons, List.not_mem_nil, or_false] at hmem
    rcases hmem with rfl | rfl
    · exact ⟨by decide, by decide, by decide, by decide⟩
    · exact ⟨by decide, by decide, by decide, by decide⟩
  have hfit : (Rpc.appendEntriesReq firstEntries).Fits :=
    ⟨by decide, by decide, by decide, by decide, ⟨by decide, by decide⟩, hentries⟩
  obtain ⟨hsent, -⟩ := wire_round_trip .blank 2 1 (.appendEntriesReq firstEntries) hfit
  obtain ⟨hrc, -, -, hback⟩ := hsent (by decide)
  exact ⟨hfit, hrc, hback⟩

/-! ### What unpacking has read -/

theorem length_unpackEntries (p : ℕ) (buf : List UInt8) (n : ℕ) :
    (unpackEntries p buf n).length = n := by
  induction n generalizing p with
  | zero => rfl
  | succ n ih => rw [unpackEntries, List.length_cons, ih]

theorem unpackEntries_congr {n : ℕ} {buf buf' : List UInt8} (h : buf.take n = buf'.take n)
    {p m : ℕ} (hp : p + 16 * m ≤ n) : unpackEntries p buf m = unpackEntries p buf' m := by
  induction m generalizing p with
  | zero => rfl
  | succ m ih =>
      rw [unpackEntries, unpackEntries, ih (by omega), logEntryUnpack, logEntryUnpack,
        readU32Be_congr h (by omega), readU32Be_congr h (by omega), readU32Be_congr h (by omega),
        readU32Be_congr h (by omega)]

theorem stands_entries {buf : List UInt8} {p n : ℕ} (h : p + 16 * n ≤ buf.length) :
    Stands ((unpackEntries p buf n).flatMap LogEntry.fields) p buf := by
  induction n generalizing p with
  | zero => exact .nil
  | succ n ih =>
      rw [unpackEntries, List.flatMap_cons]
      exact .word (by omega) (.word (by omega) (.word (by omega) (.word (by omega) (ih (by omega)))))

/-- A response to a client that ends before its last field. -/
def CutShort (pkt : WirePkt) (c : RpcCode) : Prop :=
  c = .respProc ∧ 13 ≤ pkt.header.payloadN ∧ pkt.header.payloadN < 17

namespace Rpc

variable {pkt : WirePkt} {c : RpcCode} {rpc : Rpc}

/-- How many bytes of the payload the unpack function for a code reads. -/
def reach (pkt : WirePkt) : RpcCode → ℕ
  | .callAppendEnt =>
    if pkt.header.payloadN < 24 then 0
    else if readU32Be 20 pkt.payload > maxAppendEntriesN ∨
        pkt.header.payloadN < 24 + readU32Be 20 pkt.payload * logEntryPackedSize then 24
    else 24 + readU32Be 20 pkt.payload * logEntryPackedSize
  | .respAppendEnt => if pkt.header.payloadN < 9 then 0 else 9
  | .callReqVote => if pkt.header.payloadN < 16 then 0 else 16
  | .respReqVote => if pkt.header.payloadN < 5 then 0 else 5
  | .callProc => if pkt.header.payloadN < 12 then 0 else 12
  | .respProc => if pkt.header.payloadN < 13 then 0 else 17

/-- No other byte has a part in what is unpacked. -/
theorem unpack_congr {pkt' : WirePkt} {n : ℕ} (hn : pkt'.header.payloadN = pkt.header.payloadN)
    (hp : pkt'.payload.take n = pkt.payload.take n) (hreach : reach pkt c ≤ n) :
    unpack pkt' c = unpack pkt c := by
  cases c with
  | callAppendEnt =>
      simp only [unpack, rpcUnpackAppendEntriesReq, hn]
      rw [reach] at hreach
      by_cases h24 : pkt.header.payloadN < 24
      · rw [if_pos h24, if_pos h24]
      rw [if_neg h24] at hreach
      have hcount : readU32Be 20 pkt'.payload = readU32Be 20 pkt.payload :=
        readU32Be_congr hp (by split at hreach <;> omega)
      rw [if_neg h24, if_neg h24, hcount]
      by_cases hmax : readU32Be 20 pkt.payload > maxAppendEntriesN
      · rw [if_pos hmax, if_pos hmax]
      rw [if_neg hmax, if_neg hmax]
      by_cases hsize : pkt.header.payloadN < 24 + readU32Be 20 pkt.payload * logEntryPackedSize
      · rw [if_pos hsize, if_pos hsize]
      have hall : 24 + readU32Be 20 pkt.payload * 16 ≤ n := by
        rwa [if_neg (not_or.mpr ⟨hmax, hsize⟩)] at hreach
      rw [unpackEntries_congr hp (by omega), readU32Be_congr hp (by omega),
        readU32Be_congr hp (by omega), readU32Be_congr hp (by omega),
        readU32Be_congr hp (by omega), readU32Be_congr hp (by omega)]
  | respAppendEnt =>
      simp only [unpack, rpcUnpackAppendEntriesRes, hn]
      by_cases h9 : pkt.header.payloadN < 9
      · rw [if_pos h9, if_pos h9]
      · rw [reach, if_neg h9] at hreach
        rw [readU32Be_congr hp (by omega), readU32Be_congr hp (by omega), readU8_congr hp (by omega)]
  | callReqVote =>
      simp only [unpack, rpcUnpackRequestVoteReq, hn]
      by_cases h16 : pkt.header.payloadN < 16
      · rw [if_pos h16, if_pos h16]
      · rw [reach, if_neg h16] at hreach
        rw [readU32Be_congr hp (by omega), readU32Be_congr hp (by omega),
          readU32Be_congr hp (by omega), readU32Be_congr hp (by omega)]
  | respReqVote =>
      simp only [unpack, rpcUnpackRequestVoteRes, hn]
      by_cases h5 : pkt.header.payloadN < 5
      · rw [if_pos h5, if_pos h5]
      · rw [reach, if_neg h5] at hreach
        rw [readU32Be_congr hp (by omega), readU8_congr hp (by omega)]
  | callProc =>
      simp only [unpack, rpcUnpackProcReq, hn]
      by_cases h12 : pkt.header.payloadN < 12
      · rw [if_pos h12, if_pos h12]
      · rw [reach, if_neg h12] at hreach
        rw [readU32Be_congr hp (by omega), readU32Be_congr hp (by omega),
          readU32Be_congr hp (by omega)]
  | respProc =>
      simp only [unpack, rpcUnpackProcRes, hn]
      by_cases h13 : pkt.header.payloadN < 13
      · rw [if_pos h13, if_pos h13]
      · rw [reach, if_neg h13] at hreach
        rw [readU32Be_congr hp (by omega), readU32Be_congr hp (by omega), readU8_congr hp (by omega),
          readU32Be_congr hp (by omega), readU32Be_congr hp (by omega)]

/-- What is read was sent, unless the message is cut short. -/
theorem reach_le (hcut : ¬CutShort pkt c) : reach pkt c ≤ pkt.header.payloadN := by
  have hfixed : ∀ n, (if pkt.header.payloadN < n then 0 else n) ≤ pkt.header.payloadN := by
    intro n
    split <;> omega
  cases c with
  | callAppendEnt =>
      rw [reach]
      split
      · exact Nat.zero_le _
      split
      · omega
      · omega
  | respAppendEnt => exact hfixed 9
  | callReqVote => exact hfixed 16
  | respReqVote => exact hfixed 5
  | callProc => exact hfixed 12
  | respProc =>
      rw [reach]
      split
      · exact Nat.zero_le _
      · by_contra hlt
        exact hcut ⟨rfl, by omega, by omega⟩

/-- The fields of what is unpacked stand at the start of the payload. -/
theorem stands_of_unpack (h : unpack pkt c = some rpc) :
    Stands rpc.fields 0 pkt.payload ∧ rpc.nEntries ≤ maxAppendEntriesN := by
  have hsize : pkt.payload.length = 1024 := pkt.size
  cases c with
  | callAppendEnt =>
      obtain ⟨req, hreq, rfl⟩ := Option.map_eq_some_iff.mp h
      rw [rpcUnpackAppendEntriesReq] at hreq
      split at hreq
      · cases hreq
      · dsimp only at hreq
        split at hreq
        · cases hreq
        · rename_i hmax
          split at hreq
          · cases hreq
          · cases hreq
            unfold maxAppendEntriesN at hmax
            have hcommit : u32 (i32 (readU32Be 16 pkt.payload)) = readU32Be 16 pkt.payload := by
              rw [u32_i32, u32_of_nat (readU32Be_lt ..)]
            constructor
            · simp only [fields, AppendEntriesReq.head, AppendEntriesReq.nEntries,
                length_unpackEntries, hcommit]
              refine .append (.word (by omega) (.word (by omega) (.word (by omega) (.word (by omega)
                (.word (by omega) (.word (by omega) .nil)))))) (stands_entries ?_)
              show 0 + 24 + 16 * _ ≤ pkt.payload.length
              omega
            · simp only [nEntries, AppendEntriesReq.nEntries, length_unpackEntries]
              unfold maxAppendEntriesN
              omega
  | respAppendEnt =>
      obtain ⟨res, hres, rfl⟩ := Option.map_eq_some_iff.mp h
      simp only [rpcUnpackAppendEntriesRes] at hres
      split at hres
      · cases hres
      · cases hres
        exact ⟨.word (by omega) (.word (by omega) (.byte (by omega) .nil)), Nat.zero_le _⟩
  | callReqVote =>
      obtain ⟨req, hreq, rfl⟩ := Option.map_eq_some_iff.mp h
      simp only [rpcUnpackRequestVoteReq] at hreq
      split at hreq
      · cases hreq
      · cases hreq
        exact ⟨.word (by omega) (.word (by omega) (.word (by omega) (.word (by omega) .nil))),
          Nat.zero_le _⟩
  | respReqVote =>
      obtain ⟨res, hres, rfl⟩ := Option.map_eq_some_iff.mp h
      simp only [rpcUnpackRequestVoteRes] at hres
      split at hres
      · cases hres
      · cases hres
        exact ⟨.word (by omega) (.byte (by omega) .nil), Nat.zero_le _⟩
  | callProc =>
      obtain ⟨req, hreq, rfl⟩ := Option.map_eq_some_iff.mp h
      simp only [rpcUnpackProcReq] at hreq
      split at hreq
      · cases hreq
      · cases hreq
        exact ⟨.word (by omega) (.word (by omega) (.word (by omega) .nil)), Nat.zero_le _⟩
  | respProc =>
      obtain ⟨res, hres, rfl⟩ := Option.map_eq_some_iff.mp h
      simp only [rpcUnpackProcRes] at hres
      split at hres
      · cases hres
      · cases hres
        exact ⟨.word (by omega) (.word (by omega) (.byte (by omega) (.word (by omega)
          (.word (by omega) .nil)))), Nat.zero_le _⟩

end Rpc

/-- What the unpack function for `c` does with `pkt` depends only on what was
sent, and packing its message again gives the bytes that were sent. -/
def ReadsWhatWasSent (c : RpcCode) (pkt : WirePkt) : Prop :=
  (∀ pkt' : WirePkt, pkt'.header.payloadN = pkt.header.payloadN →
    pkt'.payload.take pkt.header.payloadN = pkt.payload.take pkt.header.payloadN →
    Rpc.unpack pkt' c = Rpc.unpack pkt c) ∧
  ∀ rpc, Rpc.unpack pkt c = some rpc → ∀ (old : WirePkt) (dst src : ℕ),
    (rpc.pack old dst src).2.payload.take (rpc.pack old dst src).2.header.payloadN <+:
      pkt.payload.take pkt.header.payloadN

/-- The payload of a message that was packed again. -/
theorem repacked {pkt : WirePkt} {c : RpcCode} {rpc : Rpc} (h : Rpc.unpack pkt c = some rpc)
    (old : WirePkt) (dst src : ℕ) :
    (rpc.pack old dst src).2.payload.take (rpc.pack old dst src).2.header.payloadN =
      bytesOf rpc.fields := by
  have hmax := (Rpc.stands_of_unpack h).2
  obtain ⟨hn, hp⟩ := WirePkt.fill_eq old dst src rpc.code rpc.fields (Rpc.size_le hmax)
  rw [Rpc.pack_eq old dst src hmax, hn, hp, List.take_left]

/-- An accepted packet is at least as long as its message, unless it is cut short. -/
theorem Rpc.size_le_of_unpack {pkt : WirePkt} {c : RpcCode} {rpc : Rpc}
    (h : Rpc.unpack pkt c = some rpc) (hcut : ¬CutShort pkt c) :
    rpc.size ≤ pkt.header.payloadN := by
  cases c with
  | callAppendEnt =>
      obtain ⟨req, hreq, rfl⟩ := Option.map_eq_some_iff.mp h
      rw [rpcUnpackAppendEntriesReq] at hreq
      split at hreq
      · cases hreq
      · dsimp only at hreq
        split at hreq
        · cases hreq
        · split at hreq
          · cases hreq
          · rename_i hsize
            cases hreq
            rw [size_appendEntriesReq]
            simp only [AppendEntriesReq.nEntries, length_unpackEntries]
            have hsize : ¬pkt.header.payloadN < 24 + readU32Be 20 pkt.payload * 16 := hsize
            omega
  | respAppendEnt =>
      obtain ⟨res, hres, rfl⟩ := Option.map_eq_some_iff.mp h
      simp only [rpcUnpackAppendEntriesRes] at hres
      split at hres
      · cases hres
      · rename_i hlen
        exact not_lt.mp hlen
  | callReqVote =>
      obtain ⟨req, hreq, rfl⟩ := Option.map_eq_some_iff.mp h
      simp only [rpcUnpackRequestVoteReq] at hreq
      split at hreq
      · cases hreq
      · rename_i hlen
        exact not_lt.mp hlen
  | respReqVote =>
      obtain ⟨res, hres, rfl⟩ := Option.map_eq_some_iff.mp h
      simp only [rpcUnpackRequestVoteRes] at hres
      split at hres
      · cases hres
      · rename_i hlen
        exact not_lt.mp hlen
  | callProc =>
      obtain ⟨req, hreq, rfl⟩ := Option.map_eq_some_iff.mp h
      simp only [rpcUnpackProcReq] at hreq
      split at hreq
      · cases hreq
      · rename_i hlen
        exact not_lt.mp hlen
  | respProc =>
      obtain ⟨res, hres, rfl⟩ := Option.map_eq_some_iff.mp h
      simp only [rpcUnpackProcRes] at hres
      split at hres
      · cases hres
      · rename_i hlen
        by_contra hlt
        have hsize : ¬17 ≤ pkt.header.payloadN := hlt
        exact hcut ⟨rfl, by omega, by omega⟩

/-- The unpack functions keep to what was sent, but for a response to a client
that is accepted without its last field. -/
theorem decoders_read_what_was_sent (c : RpcCode) (pkt : WirePkt) :
    ReadsWhatWasSent c pkt ↔ ¬CutShort pkt c := by
  constructor
  · rintro ⟨-, hpack⟩ ⟨rfl, hlo, hhi⟩
    -- The message that was accepted has 17 bytes, and fewer were sent.
    have hsome : Rpc.unpack pkt .respProc = some (.procRes
        { clientId := readU32Be 0 pkt.payload
          cmdSeqno := readU32Be 4 pkt.payload
          success := readU8 8 pkt.payload
          leaderHint := readU32Be 9 pkt.payload
          term := readU32Be 13 pkt.payload }) := by
      simp only [Rpc.unpack, rpcUnpackProcRes]
      rw [if_neg (by omega), Option.map_some]
    have hle := (hpack _ hsome .blank 0 0).length_le
    rw [repacked hsome, List.length_take] at hle
    have h17 : 17 ≤ min pkt.header.payloadN pkt.payload.length := hle
    omega
  · intro hcut
    refine ⟨fun pkt' hn hp => Rpc.unpack_congr hn hp (Rpc.reach_le hcut), fun rpc hrpc old dst src => ?_⟩
    rw [repacked hrpc]
    exact (Rpc.stands_of_unpack hrpc).1.isPrefix (Rpc.size_le_of_unpack hrpc hcut)

/-- Two packets with the same 13 bytes of a response to a client, and another byte
behind them. -/
def cutShortPkt (b : UInt8) : WirePkt where
  header := { dst := 9, src := 0, payloadN := 13, code := 5 }
  payload := List.replicate 16 0 ++ [b] ++ List.replicate 1007 0
  size := by
    simp only [List.length_append, List.length_replicate, List.length_singleton]
    rfl

theorem term_read_behind_the_payload :
    (cutShortPkt 1).header.payloadN = (cutShortPkt 0).header.payloadN ∧
      (cutShortPkt 1).payload.take 13 = (cutShortPkt 0).payload.take 13 ∧
      Rpc.unpack (cutShortPkt 0) .respProc = some (.procRes ⟨0, 0, 0, 0, 0⟩) ∧
      Rpc.unpack (cutShortPkt 1) .respProc = some (.procRes ⟨0, 0, 0, 0, 1⟩) ∧
      ¬ReadsWhatWasSent .respProc (cutShortPkt 0) := by
  have h₀ : Rpc.unpack (cutShortPkt 0) .respProc = some (.procRes ⟨0, 0, 0, 0, 0⟩) := rfl
  have h₁ : Rpc.unpack (cutShortPkt 1) .respProc = some (.procRes ⟨0, 0, 0, 0, 1⟩) := rfl
  refine ⟨rfl, rfl, h₀, h₁, fun h => ?_⟩
  have heq := h.1 (cutShortPkt 1) rfl rfl
  rw [h₀, h₁] at heq
  cases heq

end GeoRaft
