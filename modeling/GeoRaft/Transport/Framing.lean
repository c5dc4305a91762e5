import Mathlib.Data.List.Infix
import Mathlib.Logic.Relation
import GeoRaft.Transport.Socket

/-!
The packets that go over one connection in one direction.

Both ends are a single thread: a packet is written or read to its end before anything
else is done with the connection, or the connection is closed. The kernel is a queue of
bytes that takes and gives as many at a time as it likes.
-/

/-! ### Frames of one size, with nothing between them -/

namespace GeoRaft.Frames

variable {α : Type} {n : ℕ}

/-- What begins with whole frames begins with the same frames. -/
theorem isPrefix_of_flatten {rs ss : List (List α)} {s : List α} (hr : ∀ r ∈ rs, r.length = n)
    (hs : ∀ x ∈ ss, x.length = n) (hlt : s.length < n) (h : rs.flatten <+: ss.flatten ++ s) :
    rs <+: ss := by
  induction rs generalizing ss with
  | nil => exact List.nil_prefix
  | cons r rs ih =>
      have hrlen := hr r List.mem_cons_self
      obtain ⟨t, ht⟩ := h
      rw [List.flatten_cons, List.append_assoc] at ht
      cases ss with
      | nil =>
          have hlen := congrArg List.length ht
          rw [List.length_append, List.flatten_nil, List.nil_append] at hlen
          omega
      | cons x ss =>
          rw [List.flatten_cons, List.append_assoc] at ht
          have hxlen := hs x List.mem_cons_self
          obtain ⟨rfl, hrest⟩ := List.append_inj ht (hrlen.trans hxlen.symm)
          have htail := ih (fun r hr' => hr r (List.mem_cons_of_mem _ hr'))
            (fun x hx => hs x (List.mem_cons_of_mem _ hx)) ⟨t, hrest⟩
          obtain ⟨us, rfl⟩ := htail
          exact ⟨us, rfl⟩

end GeoRaft.Frames

namespace GeoRaft

/-- A connection, as far as one direction goes. -/
structure Stream where
  /-- The packets whose `socket_send` returned 0, in order. -/
  sent : List RawPkt
  /-- The packet that `socket_send` is at, and `total_sent`. -/
  sending : Option (RawPkt × ℕ)
  senderOpen : Bool
  /-- The bytes that were taken from the sender and not given to the receiver. -/
  queue : List UInt8
  /-- What `socket_receive` has read of a packet it is at. -/
  reading : Option (List UInt8)
  receiverOpen : Bool
  /-- The packets for which `socket_receive` returned 1, in order. -/
  returned : List RawPkt

namespace Stream

def fresh : Stream where
  sent := []
  sending := none
  senderOpen := true
  queue := []
  reading := none
  receiverOpen := true
  returned := []

/-- The sender after a call of `send` that took `bytes`. -/
def afterSend (c : Stream) (pkt : RawPkt) (bytes : List UInt8) : SendNext → Stream
  | .loop totalSent =>
    { c with queue := c.queue ++ bytes, sending := some (pkt, totalSent) }
  | .done => { c with queue := c.queue ++ bytes, sending := none, sent := c.sent ++ [pkt] }
  | .errClose => { c with sending := none, senderOpen := false }

/-- What a buffer holds when it is full. -/
def asPkt (bytes : List UInt8) : List RawPkt :=
  if h : bytes.length = sizeofPkt then [⟨bytes, h⟩] else []

/-- The receiver after a call of `read` that gave `bytes`. -/
def afterRead (c : Stream) (buf bytes : List UInt8) : ReadNext → Stream
  | .loop _ => { c with queue := c.queue.drop bytes.length, reading := some (buf ++ bytes) }
  | .packet =>
    { c with
      queue := c.queue.drop bytes.length
      reading := none
      returned := c.returned ++ asPkt (buf ++ bytes) }
  | .leave => { c with reading := none }
  | .errRecv => { c with reading := none, receiverOpen := false }

/-- How many bytes a call of `send` has taken. -/
def taken : SendResult → ℕ
  | .sent n => n
  | _ => 0

def given : ReadResult → ℕ
  | .got n => n
  | _ => 0

/-- What can happen next, at either end or between them. -/
inductive Step : Stream → Stream → Prop
  /-- `socket_send` is called and gets as far as its loop. When it does not, it returns
  -1 with nothing sent, and leaves the connection as it is or closes it. -/
  | call {c} (pkt : RawPkt) (hopen : c.senderOpen) (hidle : c.sending = none) :
      Step c { c with sending := some (pkt, 0) }
  | send {c pkt totalSent} (r : SendResult) (hat : c.sending = some (pkt, totalSent))
      (hfits : taken r ≤ sizeofPkt - totalSent) :
      Step c (c.afterSend pkt ((pkt.bytes.drop totalSent).take (taken r)) (sendBody totalSent r))
  /-- The sender closes the connection while it is not sending. -/
  | closeSender {c} (hidle : c.sending = none) : Step c { c with senderOpen := false }
  | look {c} (hopen : c.receiverOpen) (hidle : c.reading = none) :
      Step c { c with reading := some [] }
  | read {c buf} (r : ReadResult) (hat : c.reading = some buf)
      (hfits : given r ≤ sizeofPkt - buf.length) (hqueue : given r ≤ c.queue.length) :
      Step c (c.afterRead buf (c.queue.take (given r)) (readBody buf.length r))
  | closeReceiver {c} (hidle : c.reading = none) : Step c { c with receiverOpen := false }
  /-- What is still under way when an end is closed can get lost. -/
  | lose {c} (n : ℕ) (hclosed : c.senderOpen = false ∨ c.receiverOpen = false) :
      Step c { c with queue := c.queue.take n }

def Reachable : Stream → Prop := Relation.ReflTransGen Step fresh

/-- The bytes of the packets whose `socket_send` returned 0. -/
def sentBytes (c : Stream) : List UInt8 := (c.sent.map RawPkt.bytes).flatten

/-- The bytes that were given to the receiver. -/
def pulled (c : Stream) : List UInt8 := (c.returned.map RawPkt.bytes).flatten ++ c.reading.getD []

/-- Behind the whole packets comes at most a part of one, `part`: of the packet that is
being sent, or of the one at which the sender gave up. -/
structure Framed (c : Stream) (part : List UInt8) : Prop where
  short : part.length < sizeofPkt
  sending : ∀ pkt totalSent, c.sending = some (pkt, totalSent) →
    c.senderOpen = true ∧ totalSent < sizeofPkt ∧ part = pkt.bytes.take totalSent
  idle : c.senderOpen = true → c.sending = none → part = []
  reading : ∀ buf, c.reading = some buf → c.receiverOpen = true ∧ buf.length < sizeofPkt
  pulled : c.pulled <+: c.sentBytes ++ part
  queued : c.receiverOpen = true → c.pulled ++ c.queue <+: c.sentBytes ++ part
  flowing : c.receiverOpen = true → c.senderOpen = true → c.pulled ++ c.queue = c.sentBytes ++ part

variable {c c' : Stream} {part : List UInt8}

theorem framed_fresh : Framed fresh [] := by
  constructor <;> simp [fresh, Stream.pulled, sentBytes, sizeofPkt]

theorem sendBody_cases (totalSent : ℕ) (hlt : totalSent < sizeofPkt) (r : SendResult) :
    (sendBody totalSent r = .loop (totalSent + taken r) ∧ totalSent + taken r < sizeofPkt) ∨
      (sendBody totalSent r = .done ∧ sizeofPkt ≤ totalSent + taken r) ∨
      sendBody totalSent r = .errClose ∧ taken r = 0 := by
  cases r with
  | sent n =>
      rw [sendBody, taken]
      split
      · split
        · rename_i hmore
          exact .inl ⟨rfl, hmore⟩
        · rename_i hwhole
          exact .inr (.inl ⟨rfl, not_lt.mp hwhole⟩)
      · exact .inr (.inr ⟨rfl, by omega⟩)
  | interrupted => exact .inl ⟨rfl, hlt⟩
  | again writable =>
      cases writable with
      | true => exact .inl ⟨rfl, hlt⟩
      | false => exact .inr (.inr ⟨rfl, rfl⟩)
  | failed => exact .inr (.inr ⟨rfl, rfl⟩)

theorem readBody_cases (totalRead : ℕ) (hlt : totalRead < sizeofPkt) (r : ReadResult) :
    (readBody totalRead r = .loop (totalRead + given r) ∧ totalRead + given r < sizeofPkt) ∨
      (readBody totalRead r = .packet ∧ sizeofPkt ≤ totalRead + given r) ∨
      (readBody totalRead r = .leave ∧ given r = 0 ∧ totalRead = 0) ∨
      readBody totalRead r = .errRecv ∧ given r = 0 := by
  cases r with
  | got n =>
      rw [readBody, given]
      split
      · split
        · rename_i hmore
          exact .inl ⟨rfl, hmore⟩
        · rename_i hwhole
          exact .inr (.inl ⟨rfl, not_lt.mp hwhole⟩)
      · exact .inr (.inr (.inr ⟨rfl, by omega⟩))
  | interrupted => exact .inl ⟨rfl, hlt⟩
  | again late =>
      show (readBody totalRead (.again late) = .loop totalRead ∧ _) ∨ _
      rw [readBody]
      split
      · split
        · exact .inr (.inr (.inr ⟨rfl, rfl⟩))
        · exact .inl ⟨rfl, hlt⟩
      · exact .inr (.inr (.inl ⟨rfl, rfl, by omega⟩))
  | failed => exact .inr (.inr (.inr ⟨rfl, rfl⟩))

/-- More bytes are sent: the stream of the sender goes on, and so does the queue. -/
theorem Framed.extend (h : Framed c part) (hopen : c.senderOpen = true) {bytes part' : List UInt8}
    (hsent : c.sentBytes ++ part ++ bytes = c'.sentBytes ++ part') (hshort : part'.length < sizeofPkt)
    (hpulled : c'.pulled = c.pulled) (hqueue : c'.queue = c.queue ++ bytes)
    (hrecv : c'.receiverOpen = c.receiverOpen) (hreading : c'.reading = c.reading)
    (hsending : ∀ pkt totalSent, c'.sending = some (pkt, totalSent) →
      c'.senderOpen = true ∧ totalSent < sizeofPkt ∧ part' = pkt.bytes.take totalSent)
    (hidle : c'.senderOpen = true → c'.sending = none → part' = []) : Framed c' part' := by
  have hflow : c.receiverOpen = true → c'.pulled ++ c'.queue = c'.sentBytes ++ part' := by
    intro hr
    rw [hpulled, hqueue, ← List.append_assoc, h.flowing hr hopen, hsent]
  refine ⟨hshort, hsending, hidle, ?_, ?_, ?_, ?_⟩
  · rw [hreading, hrecv]
    exact h.reading
  · rw [hpulled, ← hsent]
    exact h.pulled.trans (List.prefix_append _ _)
  · intro hr
    rw [hflow (hrecv ▸ hr)]
  · intro hr _
    exact hflow (hrecv ▸ hr)

/-- One call of `send`. -/
theorem Framed.send (h : Framed c part) {pkt : RawPkt} {totalSent : ℕ} (r : SendResult)
    (hat : c.sending = some (pkt, totalSent)) :
    ∃ part', Framed (c.afterSend pkt ((pkt.bytes.drop totalSent).take (taken r))
      (sendBody totalSent r)) part' := by
  obtain ⟨hopen, hlt, rfl⟩ := h.sending pkt totalSent hat
  have hmore : pkt.bytes.take totalSent ++ (pkt.bytes.drop totalSent).take (taken r) =
      pkt.bytes.take (totalSent + taken r) := List.take_add.symm
  rcases sendBody_cases totalSent hlt r with ⟨hbody, hin⟩ | ⟨hbody, hwhole⟩ | ⟨hbody, hzero⟩
  · rw [hbody]
    refine ⟨pkt.bytes.take (totalSent + taken r), h.extend hopen ?_ ?_ rfl rfl rfl rfl ?_ ?_⟩
    · rw [List.append_assoc, hmore]
      rfl
    · rw [List.length_take]
      omega
    · intro pkt' total' heq
      obtain ⟨rfl, rfl⟩ := Prod.mk.inj (Option.some.inj heq)
      exact ⟨hopen, hin, rfl⟩
    · intro _ hnone
      exact absurd hnone (by simp [afterSend])
  · rw [hbody]
    refine ⟨[], h.extend hopen ?_ ?_ rfl rfl rfl rfl ?_ ?_⟩
    · have hall : pkt.bytes.take (totalSent + taken r) = pkt.bytes :=
        List.take_of_length_le (by rw [pkt.size]; exact hwhole)
      rw [List.append_assoc, hmore, hall, List.append_nil]
      simp [afterSend, sentBytes]
    · decide
    · intro pkt' total' heq
      exact absurd heq (by simp [afterSend])
    · exact fun _ _ => rfl
  · rw [hbody]
    exact ⟨pkt.bytes.take totalSent, h.short, by simp [afterSend], by simp [afterSend], h.reading,
      h.pulled, h.queued, by simp [afterSend]⟩

/-- Bytes that move from the queue to the receiver. -/
theorem Framed.pull (h : Framed c part) (hopen : c.receiverOpen = true) {bytes rest : List UInt8}
    (hqueue : c.queue = bytes ++ rest) (hpulled : c'.pulled = c.pulled ++ bytes)
    (hrest : c'.queue = rest) (hsent : c'.sentBytes = c.sentBytes)
    (hsending : c'.sending = c.sending) (hsender : c'.senderOpen = c.senderOpen)
    (hreading : ∀ buf, c'.reading = some buf → c'.receiverOpen = true ∧ buf.length < sizeofPkt) :
    Framed c' part := by
  have hmoved : c'.pulled ++ c'.queue = c.pulled ++ c.queue := by
    rw [hpulled, hrest, hqueue, List.append_assoc]
  have hqueued := h.queued hopen
  refine ⟨h.short, ?_, ?_, hreading, ?_, ?_, ?_⟩
  · rw [hsending, hsender]
    exact h.sending
  · rw [hsending, hsender]
    exact h.idle
  · rw [hsent]
    refine (List.prefix_append _ c'.queue).trans ?_
    rwa [hmoved]
  · intro _
    rwa [hmoved, hsent]
  · intro _ hs
    rw [hmoved, hsent]
    exact h.flowing hopen (hsender ▸ hs)

/-- One call of `read`. -/
theorem Framed.read (h : Framed c part) {buf : List UInt8} (r : ReadResult)
    (hat : c.reading = some buf) (hfits : given r ≤ sizeofPkt - buf.length)
    (hqueue : given r ≤ c.queue.length) :
    Framed (c.afterRead buf (c.queue.take (given r)) (readBody buf.length r)) part := by
  obtain ⟨hopen, hlt⟩ := h.reading buf hat
  have hlen : (c.queue.take (given r)).length = given r := by
    rw [List.length_take, min_eq_left hqueue]
  have hsplit : c.queue = c.queue.take (given r) ++ c.queue.drop (given r) :=
    (List.take_append_drop _ _).symm
  have hpulled : c.pulled = (c.returned.map RawPkt.bytes).flatten ++ buf := by
    rw [Stream.pulled, hat]
    rfl
  rcases readBody_cases buf.length hlt r with ⟨hbody, hin⟩ | ⟨hbody, hwhole⟩ | ⟨hbody, hzero, hnone⟩ |
    ⟨hbody, hzero⟩
  · rw [hbody]
    refine h.pull hopen hsplit ?_ ?_ rfl rfl rfl ?_
    · rw [hpulled, List.append_assoc]
      rfl
    · show c.queue.drop _ = _
      rw [hlen]
    · intro buf' heq
      obtain rfl := Option.some.inj heq
      refine ⟨hopen, ?_⟩
      rw [List.length_append, hlen]
      exact hin
  · rw [hbody]
    have hsize : (buf ++ c.queue.take (given r)).length = sizeofPkt := by
      rw [List.length_append, hlen]
      omega
    refine h.pull hopen hsplit ?_ ?_ rfl rfl rfl (by simp [afterRead])
    · rw [hpulled, afterRead, asPkt, dif_pos hsize, Stream.pulled]
      simp
    · show c.queue.drop _ = _
      rw [hlen]
  · rw [hbody]
    have hempty : buf = [] := List.length_eq_zero_iff.mp hnone
    have hsame : (c.afterRead buf (c.queue.take (given r)) .leave).pulled = c.pulled ++ [] := by
      rw [hpulled, hempty, afterRead, Stream.pulled]
      simp
    exact h.pull hopen (List.nil_append _).symm hsame rfl rfl rfl rfl (by simp [afterRead])
  · rw [hbody]
    have hless : (c.afterRead buf (c.queue.take (given r)) .errRecv).pulled <+: c.pulled := by
      rw [hpulled, afterRead, Stream.pulled]
      simp
    exact ⟨h.short, h.sending, h.idle, by simp [afterRead], hless.trans h.pulled,
      by simp [afterRead], by simp [afterRead]⟩

theorem Framed.step (h : Framed c part) (hstep : Step c c') : ∃ part', Framed c' part' := by
  cases hstep with
  | call pkt hopen hidle =>
      obtain rfl := h.idle hopen hidle
      refine ⟨[], h.short, ?_, by simp, h.reading, h.pulled, h.queued, h.flowing⟩
      intro pkt' totalSent heq
      obtain ⟨rfl, rfl⟩ := Prod.mk.inj (Option.some.inj heq)
      exact ⟨hopen, by decide, rfl⟩
  | send r hat hfits => exact h.send r hat
  | closeSender hidle =>
      exact ⟨part, h.short, by simp [hidle], by simp, h.reading, h.pulled, h.queued, by simp⟩
  | look hopen hidle =>
      have hsame : ({ c with reading := some [] } : Stream).pulled = c.pulled := by
        rw [Stream.pulled, Stream.pulled, hidle]
        rfl
      refine ⟨part, h.short, h.sending, h.idle, ?_, ?_, ?_, ?_⟩
      · intro buf heq
        obtain rfl := Option.some.inj heq
        exact ⟨hopen, by decide⟩
      · rw [hsame]
        exact h.pulled
      · rw [hsame]
        exact h.queued
      · rw [hsame]
        exact h.flowing
  | read r hat hfits hqueue => exact ⟨part, h.read r hat hfits hqueue⟩
  | closeReceiver hidle =>
      exact ⟨part, h.short, h.sending, h.idle, by simp [hidle], h.pulled, by simp, by simp⟩
  | lose n hclosed =>
      refine ⟨part, h.short, h.sending, h.idle, h.reading, h.pulled, ?_, ?_⟩
      · intro hr
        have hcut : c.pulled ++ c.queue.take n <+: c.pulled ++ c.queue :=
          (List.prefix_append_right_inj _).mpr (List.take_prefix n c.queue)
        exact hcut.trans (h.queued hr)
      · intro hr hs
        rcases hclosed with hclosed | hclosed
        · exact absurd hs (by simp [hclosed])
        · exact absurd hr (by simp [hclosed])

theorem framed_of_reachable (h : c.Reachable) : ∃ part, Framed c part := by
  induction h with
  | refl => exact ⟨[], framed_fresh⟩
  | tail _ hstep ih =>
      obtain ⟨part, hpart⟩ := ih
      exact hpart.step hstep

theorem bytes_injective : Function.Injective RawPkt.bytes := by
  rintro ⟨bytes, _⟩ ⟨bytes', _⟩ rfl
  rfl

/-- The packets that `socket_receive` returns from a connection are the first ones of
those for which `socket_send` on it returned 0. -/
theorem packet_framing (h : c.Reachable) : c.returned <+: c.sent := by
  obtain ⟨part, hpart⟩ := framed_of_reachable h
  rw [← List.prefix_map_iff_of_injective bytes_injective]
  refine Frames.isPrefix_of_flatten (n := sizeofPkt) ?_ ?_ hpart.short
    ((List.prefix_append _ _).trans hpart.pulled)
  · intro bytes hmem
    obtain ⟨pkt, -, rfl⟩ := List.mem_map.mp hmem
    exact pkt.size
  · intro bytes hmem
    obtain ⟨pkt, -, rfl⟩ := List.mem_map.mp hmem
    exact pkt.size

/-! ### Packets in two pieces -/

/-- `socket_send` gets a packet out in two calls of `send`. -/
theorem Reachable.send_split (h : c.Reachable) (hopen : c.senderOpen = true)
    (hidle : c.sending = none) (pkt : RawPkt) {k : ℕ} (hpos : 0 < k) (hlt : k < sizeofPkt) :
    ({ c with sent := c.sent ++ [pkt], queue := c.queue ++ pkt.bytes } : Stream).Reachable := by
  have hfirst : sendBody 0 (.sent k) = .loop k := by
    rw [sendBody, if_pos hpos, Nat.zero_add, if_pos hlt]
  have hsecond : sendBody k (.sent (sizeofPkt - k)) = .done := by
    rw [sendBody, if_pos (Nat.sub_pos_of_lt hlt), Nat.add_sub_cancel' hlt.le, if_neg (lt_irrefl _)]
  have hcall := h.tail (.call pkt hopen hidle)
  have hpart := hcall.tail (.send (.sent k) rfl (show k ≤ _ by omega))
  rw [hfirst, List.drop_zero, taken, afterSend] at hpart
  have hdone := hpart.tail (.send (.sent (sizeofPkt - k)) rfl le_rfl)
  have hrest : (pkt.bytes.drop k).take (sizeofPkt - k) = pkt.bytes.drop k :=
    List.take_of_length_le (by rw [List.length_drop, pkt.size])
  rw [hsecond, taken, hrest, afterSend] at hdone
  dsimp only at hdone
  rw [List.append_assoc, List.take_append_drop, ← hidle] at hdone
  exact hdone

/-- `socket_receive` gets a packet in two calls of `read`. -/
theorem Reachable.read_split (h : c.Reachable) (hopen : c.receiverOpen = true)
    (hidle : c.reading = none) (pkt : RawPkt) (rest : List UInt8)
    (hqueue : c.queue = pkt.bytes ++ rest) {k : ℕ} (hpos : 0 < k) (hlt : k < sizeofPkt) :
    ({ c with queue := rest, returned := c.returned ++ [pkt] } : Stream).Reachable := by
  have hsize := pkt.size
  have hfirst : readBody 0 (.got k) = .loop k := by
    rw [readBody, if_pos hpos, Nat.zero_add, if_pos hlt]
  have hsecond : readBody k (.got (sizeofPkt - k)) = .packet := by
    rw [readBody, if_pos (Nat.sub_pos_of_lt hlt), Nat.add_sub_cancel' hlt.le, if_neg (lt_irrefl _)]
  have hlook := h.tail (.look hopen hidle)
  have hpart := hlook.tail (.read (.got k) rfl (show k ≤ sizeofPkt - 0 from hlt.le) (by
    show k ≤ c.queue.length
    rw [hqueue, List.length_append]
    omega))
  have htake : c.queue.take k = pkt.bytes.take k := by
    rw [hqueue, List.take_append_of_le_length (by omega)]
  have hlen : (pkt.bytes.take k).length = k := by
    rw [List.length_take]
    omega
  have hdrop : c.queue.drop k = pkt.bytes.drop k ++ rest := by
    rw [hqueue, List.drop_append_of_le_length (by omega)]
  rw [given, htake, List.length_nil, hfirst, afterRead] at hpart
  dsimp only at hpart
  rw [List.nil_append, hlen, hdrop] at hpart
  have hrest : (pkt.bytes.drop k).length = sizeofPkt - k := by rw [List.length_drop, hsize]
  have hdone := hpart.tail (.read (.got (sizeofPkt - k)) rfl
    (show sizeofPkt - k ≤ sizeofPkt - (pkt.bytes.take k).length by rw [hlen]) (by
      show sizeofPkt - k ≤ (pkt.bytes.drop k ++ rest).length
      rw [List.length_append, hrest]
      omega))
  have hlast : (pkt.bytes.drop k ++ rest).take (sizeofPkt - k) = pkt.bytes.drop k := by
    rw [← hrest, List.take_left]
  have hwhole : asPkt pkt.bytes = [pkt] := by rw [asPkt, dif_pos hsize]
  rw [given, hlast, hlen, hsecond, afterRead] at hdone
  dsimp only at hdone
  rw [List.take_append_drop, hwhole, List.drop_left, ← hidle] at hdone
  exact hdone

/-- A packet of one byte over and over. -/
def uniformPkt (byte : UInt8) : RawPkt := ⟨List.replicate sizeofPkt byte, List.length_replicate⟩

/-- Two packets are sent in pieces; the first one has been read, in other pieces, and 24 bytes
of the second one. -/
theorem packet_framing_pieces : ∃ c : Stream, c.Reachable ∧
    c.sent = [uniformPkt 0, uniformPkt 1] ∧ c.returned = [uniformPkt 0] ∧
      c.reading = some (List.replicate 24 1) ∧ c.returned <+: c.sent := by
  have hsent := (Reachable.send_split .refl rfl rfl (uniformPkt 0) (k := 1000) (by decide)
    (by decide)).send_split rfl rfl (uniformPkt 1) (k := 16) (by decide) (by decide)
  have hread := hsent.read_split rfl rfl (uniformPkt 0) (uniformPkt 1).bytes rfl (k := 600)
    (by decide) (by decide)
  have hnext := (hread.tail (.look rfl rfl)).tail (.read (.got 24) rfl (by decide) (by
    show 24 ≤ (uniformPkt 1).bytes.length
    rw [(uniformPkt 1).size]
    decide))
  exact ⟨_, hnext, rfl, rfl, by decide, packet_framing hnext⟩

end Stream

end GeoRaft
