import Mathlib.Data.Set.Function
import Mathlib.Logic.Function.Basic
import GeoRaft.Transport.Tables

/-!
Which client a connection belongs to.

The slot of a client follows from its id and says nothing about it, so a slot that two
clients share is the connection of the one that was heard last.
-/

namespace GeoRaft

namespace Sockets

variable {s : Sockets} {fd : ℕ}

/-- What is watched is open, and watched once. -/
structure Watched (s : Sockets) : Prop where
  sized : s.sctx.Sized
  nodup : s.sctx.activeFds.Nodup
  active : ∀ fd ∈ s.sctx.activeFds, fd ∈ s.openFds

theorem Watched.watch (h : s.Watched) (hnew : fd ∉ s.openFds) {sctx : SocketContext}
    (hsized : sctx.Sized) (hactive : sctx.activeFds = s.sctx.activeFds) :
    Watched { s.opened fd with sctx := sctx.watch fd } := by
  unfold SocketContext.watch
  rw [hactive]
  split
  · refine ⟨⟨hsized.peerFds, hsized.clientFds⟩, ?_, ?_⟩
    · refine List.nodup_append.mpr ⟨h.nodup, List.nodup_singleton fd, fun x hx y hy heq => hnew ?_⟩
      rw [← List.mem_singleton.mp hy, ← heq]
      exact h.active x hx
    · intro x hx
      rcases List.mem_append.mp hx with hx | hx
      · exact List.mem_cons_of_mem _ (h.active x hx)
      · rw [List.mem_singleton.mp hx]
        exact List.mem_cons_self
  · refine ⟨hsized, hactive ▸ h.nodup, fun x hx => List.mem_cons_of_mem _ (h.active x ?_)⟩
    rwa [← hactive]

theorem Watched.drop (h : s.Watched) {sctx : SocketContext} (hsized : sctx.Sized)
    (hactive : sctx.activeFds = (s.sctx.removeActiveFd fd).activeFds) :
    Watched { s.close fd with sctx := sctx } := by
  refine ⟨hsized, ?_, fun x hx => ?_⟩
  · show sctx.activeFds.Nodup
    rw [hactive]
    exact SocketContext.nodup_removeActiveFd h.nodup
  · have hx : x ∈ sctx.activeFds := hx
    rw [hactive, SocketContext.mem_removeActiveFd h.nodup] at hx
    exact mem_close.mpr ⟨hx.1, h.active x hx.2⟩

theorem sized_removeActiveFd (h : s.sctx.Sized) (fd : ℕ) : (s.sctx.removeActiveFd fd).Sized := by
  rw [SocketContext.removeActiveFd_eq]
  exact ⟨h.peerFds, h.clientFds⟩

theorem Watched.apply (h : s.Watched) {e : SocketEvent} (hp : e.Possible s) :
    (e.apply s).Watched := by
  cases e with
  | accepted fd =>
      rw [SocketEvent.apply, Sockets.accept]
      split
      · exact h.watch hp h.sized rfl
      · refine ⟨h.sized, h.nodup, fun x hx => mem_close.mpr ⟨?_, ?_⟩⟩
        · rintro rfl
          exact hp (h.active x hx)
        · exact List.mem_cons_of_mem _ (h.active x hx)
  | connected nodeId fd =>
      exact h.watch hp.2.2 (h.sized.setSlot nodeId _) (SocketContext.setSlot_activeFds _ _ _)
  | received fd src =>
      rw [SocketEvent.apply]
      rcases s.register_eq fd src with ⟨oldFd, -, -, heq⟩ | ⟨-, heq⟩
      · rw [heq]
        exact h.drop ((sized_removeActiveFd h.sized oldFd).setSlot src _)
          (SocketContext.setSlot_activeFds _ _ _)
      · rw [heq]
        have hactive := SocketContext.setSlot_activeFds s.sctx src (some fd)
        exact ⟨h.sized.setSlot src _, by rw [hactive]; exact h.nodup, by rw [hactive]; exact h.active⟩
  | readFailed fd =>
      refine h.drop ?_ rfl
      have hsized := sized_removeActiveFd h.sized fd
      exact ⟨by simpa [SocketContext.forget] using hsized.peerFds,
        by simpa [SocketContext.forget] using hsized.clientFds⟩
  | sendFailed dst =>
      rw [SocketEvent.apply, errClose]
      split
      · exact h
      · exact h.drop ((sized_removeActiveFd h.sized _).setSlot dst _)
          (SocketContext.setSlot_activeFds _ _ _)

theorem numNodes_apply (s : Sockets) (e : SocketEvent) :
    (e.apply s).sctx.numNodes = s.sctx.numNodes := by
  have hset : ∀ (sctx : SocketContext) id v, (sctx.setSlot id v).numNodes = sctx.numNodes := by
    intro sctx id v
    unfold SocketContext.setSlot
    split <;> rfl
  have hwatch : ∀ (sctx : SocketContext) fd, (sctx.watch fd).numNodes = sctx.numNodes := by
    intro sctx fd
    unfold SocketContext.watch
    split <;> rfl
  have hremove : ∀ (sctx : SocketContext) fd, (sctx.removeActiveFd fd).numNodes = sctx.numNodes := by
    intro sctx fd
    rw [SocketContext.removeActiveFd_eq]
  cases e with
  | accepted fd =>
      rw [SocketEvent.apply, Sockets.accept]
      split
      · exact hwatch _ _
      · rfl
  | connected nodeId fd => exact (hwatch _ _).trans (hset _ _ _)
  | received fd src =>
      rw [SocketEvent.apply]
      rcases s.register_eq fd src with ⟨oldFd, -, -, heq⟩ | ⟨-, heq⟩
      · rw [heq]
        exact (hset _ _ _).trans (hremove _ _)
      · rw [heq]
        exact hset _ _ _
  | readFailed fd => exact hremove s.sctx fd
  | sendFailed dst =>
      rw [SocketEvent.apply, errClose]
      split
      · rfl
      · exact (hset _ _ _).trans (hremove _ _)

end Sockets

/-- A process, and who is at the other end of each of its descriptors: the peer that a
connection was opened to, or whoever sent the packets that were read from it. -/
structure Connections where
  sockets : Sockets
  party : ℕ → Option ℕ

namespace Connections

variable {k : Connections} {clients : Set ℕ} {id fd : ℕ}

/-- A client, or a node. -/
def Known (clients : Set ℕ) (k : Connections) (id : ℕ) : Prop :=
  id ∈ clients ∨ id < k.sockets.sctx.numNodes

def start (numNodes : ℕ) (openFds : List ℕ) : Connections := ⟨.start numNodes openFds, fun _ => none⟩

/-- A new connection belongs to nobody yet, or to the peer it goes to. -/
def apply (k : Connections) (e : SocketEvent) : Connections where
  sockets := e.apply k.sockets
  party :=
    match e with
    | .accepted fd => Function.update k.party fd none
    | .connected nodeId fd => Function.update k.party fd (some nodeId)
    | .received fd src => Function.update k.party fd (some src)
    | .readFailed _ | .sendFailed _ => k.party

/-- Every client and every peer uses connections of its own. -/
def Proper (clients : Set ℕ) (k : Connections) (e : SocketEvent) : Prop :=
  e.Possible k.sockets ∧
    match e with
    | .received fd src => Known clients k src ∧ (k.party fd = none ∨ k.party fd = some src)
    | .sendFailed dst => Known clients k dst
    | _ => True

/-- A packet to a client goes to a connection on which that client was heard. -/
def Reaches (clients : Set ℕ) (k : Connections) : Prop :=
  ∀ c ∈ clients, ∀ fd ∈ k.sockets.sctx.slot c, k.party fd = some c

/-- A packet from one client closes no connection of another. -/
def Spares (clients : Set ℕ) (k : Connections) : SocketEvent → Prop
  | .received fd src => src ∈ clients → ∀ x ∈ k.sockets.openFds,
      x ∉ (k.apply (.received fd src)).sockets.openFds → ∀ c ∈ clients, k.party x = some c → c = src
  | _ => True

/-- `P` of every event, at the state it finds. -/
def Every (P : Connections → SocketEvent → Prop) : List SocketEvent → Connections → Prop
  | [], _ => True
  | e :: es, k => P k e ∧ Every P es (k.apply e)

/-- Whatever is in the slot of a client or of a peer is open and its own. -/
structure Served (clients : Set ℕ) (k : Connections) : Prop where
  watched : k.sockets.Watched
  slot : ∀ id, Known clients k id → ∀ fd ∈ k.sockets.sctx.slot id,
    k.party fd = some id ∧ fd ∈ k.sockets.openFds

end Connections

namespace SocketContext

variable {sctx : SocketContext} {id id' fd : ℕ} {v : Option ℕ}

theorem Sized.slot_setSlot (h : sctx.Sized) :
    (sctx.setSlot id v).slot id' = if sctx.place id' = sctx.place id then v else sctx.slot id' := by
  have hget := (h.setSlot id v).slot_eq id'
  have hplace : (sctx.setSlot id v).place id' = sctx.place id' := by
    unfold SocketContext.setSlot place
    split <;> rfl
  rw [hplace, h.slots_setSlot, List.getElem?_set] at hget
  split at hget
  · rename_i heq
    rw [if_pos heq.symm]
    rw [if_pos (h.place_lt id)] at hget
    exact (Option.some.inj hget).symm
  · rename_i hne
    rw [if_neg (Ne.symm hne)]
    rw [h.slot_eq] at hget
    exact (Option.some.inj hget).symm

theorem Sized.slot_forget (h : sctx.Sized) :
    (sctx.forget fd).slot id = if sctx.slot id = some fd then none else sctx.slot id := by
  have hsized : (sctx.forget fd).Sized :=
    ⟨by simpa [forget] using h.peerFds, by simpa [forget] using h.clientFds⟩
  have hget := hsized.slot_eq id
  have hplace : (sctx.forget fd).place id = sctx.place id := rfl
  rw [hplace, slots_forget, List.getElem?_map, h.slot_eq] at hget
  exact (Option.some.inj hget).symm

theorem slot_removeActiveFd (sctx : SocketContext) (fd id : ℕ) :
    (sctx.removeActiveFd fd).slot id = sctx.slot id := by
  rw [removeActiveFd_eq]
  rfl

theorem slot_watch (sctx : SocketContext) (fd id : ℕ) : (sctx.watch fd).slot id = sctx.slot id := by
  unfold watch
  split <;> rfl

/-- Clients whose ids differ modulo the size of the table have slots of their own. -/
theorem place_inj {clients : Set ℕ} (hids : ∀ c ∈ clients, sctx.numNodes ≤ c)
    (hinj : Set.InjOn (· % maxConnections) clients) (hid : id ∈ clients ∨ id < sctx.numNodes)
    (hid' : id' ∈ clients ∨ id' < sctx.numNodes) (h : sctx.place id = sctx.place id') : id = id' := by
  unfold place at h
  rcases hid with hid | hid
  · rw [if_neg (not_lt.mpr (hids id hid))] at h
    rcases hid' with hid' | hid'
    · rw [if_neg (not_lt.mpr (hids id' hid'))] at h
      exact hinj hid hid' (Nat.add_left_cancel h)
    · rw [if_pos hid'] at h
      omega
  · rw [if_pos hid] at h
    rcases hid' with hid' | hid'
    · rw [if_neg (not_lt.mpr (hids id' hid'))] at h
      omega
    · rw [if_pos hid'] at h
      exact h

end SocketContext

namespace Connections

variable {k : Connections} {clients : Set ℕ} {id fd : ℕ}

open SocketContext Sockets

theorem known_apply {e : SocketEvent} : Known clients (k.apply e) id ↔ Known clients k id := by
  show id ∈ clients ∨ id < (e.apply k.sockets).sctx.numNodes ↔ _
  rw [numNodes_apply]
  rfl

theorem served_start (numNodes : ℕ) (openFds : List ℕ) :
    Served clients (start numNodes openFds) := by
  have hkept := kept_start numNodes openFds
  refine ⟨⟨hkept.sized, hkept.nodup, hkept.active⟩, fun id _ fd hfd => ?_⟩
  have hstored := hkept.sized.stores_of_slot hfd
  exact absurd (hkept.stored fd hstored) List.not_mem_nil

/-- Two parties never share a descriptor. -/
theorem Served.eq_of_slot (h : Served clients k) {id' : ℕ} (hid : Known clients k id)
    (hid' : Known clients k id') (hslot : k.sockets.sctx.slot id = some fd)
    (hslot' : k.sockets.sctx.slot id' = some fd) : id = id' := by
  have hparty := (h.slot id hid fd hslot).1
  rw [(h.slot id' hid' fd hslot').1] at hparty
  exact (Option.some.inj hparty).symm

theorem Served.apply (hids : ∀ c ∈ clients, k.sockets.sctx.numNodes ≤ c)
    (hinj : Set.InjOn (· % maxConnections) clients) (h : Served clients k) {e : SocketEvent}
    (hp : Proper clients k e) : Served clients (k.apply e) := by
  refine ⟨h.watched.apply hp.1, fun id hknown x hmem => ?_⟩
  have hid := known_apply.mp hknown
  clear hknown
  have hsized := h.watched.sized
  -- another descriptor than the one in a slot is not the new one
  have hfresh : ∀ fd, fd ∉ k.sockets.openFds → k.sockets.sctx.slot id = some x → x ≠ fd := by
    rintro fd hnew hslot rfl
    exact hnew (h.slot id hid x hslot).2
  cases e with
  | accepted fd =>
      have hslot : k.sockets.sctx.slot id = some x := by
        have hx : (k.sockets.accept fd).sctx.slot id = some x := hmem
        rw [Sockets.accept] at hx
        split at hx
        · rwa [slot_watch] at hx
        · exact hx
      have hne := hfresh fd hp.1 hslot
      obtain ⟨hparty, hopen⟩ := h.slot id hid x hslot
      refine ⟨(Function.update_of_ne hne _ _).trans hparty, ?_⟩
      show x ∈ (k.sockets.accept fd).openFds
      rw [Sockets.accept]
      split
      · exact List.mem_cons_of_mem _ hopen
      · exact mem_close.mpr ⟨hne, List.mem_cons_of_mem _ hopen⟩
  | connected nodeId fd =>
      obtain ⟨hnode, -, hnew⟩ := hp.1
      have hx : ((k.sockets.sctx.setSlot nodeId (some fd)).watch fd).slot id = some x := hmem
      rw [slot_watch, hsized.slot_setSlot] at hx
      split at hx
      · rename_i hplace
        obtain rfl := place_inj hids hinj hid (.inr hnode) hplace
        obtain rfl := Option.some.inj hx
        exact ⟨Function.update_self _ _ _, List.mem_cons_self⟩
      · have hne := hfresh fd hnew hx
        obtain ⟨hparty, hopen⟩ := h.slot id hid x hx
        exact ⟨(Function.update_of_ne hne _ _).trans hparty, List.mem_cons_of_mem _ hopen⟩
  | received fd src =>
      obtain ⟨hactive, hsrc, hown⟩ := hp
      have hactive : fd ∈ k.sockets.sctx.activeFds := hactive
      -- a descriptor in the slot of somebody else
      have hother : k.sockets.sctx.place id ≠ k.sockets.sctx.place src →
          k.sockets.sctx.slot id = some x → k.party x = some id ∧ x ∈ k.sockets.openFds ∧ x ≠ fd := by
        intro hplace hslot
        obtain ⟨hparty, hopen⟩ := h.slot id hid x hslot
        refine ⟨hparty, hopen, ?_⟩
        rintro rfl
        rcases hown with hnone | hsome
        · rw [hparty] at hnone
          exact absurd hnone (by simp)
        · rw [hparty] at hsome
          exact hplace (by rw [Option.some.inj hsome])
      have hx : (k.sockets.register fd src).sctx.slot id = some x := hmem
      show Function.update k.party fd (some src) x = some id ∧
        x ∈ (k.sockets.register fd src).openFds
      rcases k.sockets.register_eq fd src with ⟨oldFd, hslot, hne, heq⟩ | ⟨-, heq⟩
      · rw [heq] at hx ⊢
        rw [(sized_removeActiveFd hsized oldFd).slot_setSlot] at hx
        have hplaces : ∀ id, (k.sockets.sctx.removeActiveFd oldFd).place id =
            k.sockets.sctx.place id := by
          intro id
          rw [removeActiveFd_eq]
          rfl
        rw [hplaces, hplaces, slot_removeActiveFd] at hx
        split at hx
        · rename_i hplace
          obtain rfl := place_inj hids hinj hid hsrc hplace
          obtain rfl := Option.some.inj hx
          exact ⟨Function.update_self _ _ _, mem_close.mpr ⟨hne.symm, h.watched.active fd hactive⟩⟩
        · rename_i hplace
          obtain ⟨hparty, hopen, hnefd⟩ := hother hplace hx
          refine ⟨(Function.update_of_ne hnefd _ _).trans hparty, mem_close.mpr ⟨?_, hopen⟩⟩
          rintro rfl
          exact hplace (by rw [h.eq_of_slot hid hsrc hx hslot])
      · rw [heq] at hx ⊢
        rw [hsized.slot_setSlot] at hx
        split at hx
        · rename_i hplace
          obtain rfl := place_inj hids hinj hid hsrc hplace
          obtain rfl := Option.some.inj hx
          exact ⟨Function.update_self _ _ _, h.watched.active fd hactive⟩
        · rename_i hplace
          obtain ⟨hparty, hopen, hnefd⟩ := hother hplace hx
          exact ⟨(Function.update_of_ne hnefd _ _).trans hparty, hopen⟩
  | readFailed fd =>
      have hx : ((k.sockets.sctx.removeActiveFd fd).forget fd).slot id = some x := hmem
      rw [(sized_removeActiveFd hsized fd).slot_forget, slot_removeActiveFd] at hx
      split at hx
      · exact absurd hx (by simp)
      · rename_i hne
        obtain ⟨hparty, hopen⟩ := h.slot id hid x hx
        refine ⟨hparty, mem_close.mpr ⟨?_, hopen⟩⟩
        rintro rfl
        exact hne hx
  | sendFailed dst =>
      have hdst : Known clients k dst := hp.2
      have hx : (k.sockets.errClose dst).sctx.slot id = some x := hmem
      show k.party x = some id ∧ x ∈ (k.sockets.errClose dst).openFds
      rw [errClose] at hx ⊢
      split at hx
      · rename_i hnone
        exact h.slot id hid x hx
      · rename_i fd hslot
        have hplaces : ∀ id, (k.sockets.sctx.removeActiveFd fd).place id =
            k.sockets.sctx.place id := by
          intro id
          rw [removeActiveFd_eq]
          rfl
        dsimp only at hx ⊢
        rw [(sized_removeActiveFd hsized fd).slot_setSlot, hplaces, hplaces,
          slot_removeActiveFd] at hx
        split at hx
        · exact absurd hx (by simp)
        · rename_i hplace
          obtain ⟨hparty, hopen⟩ := h.slot id hid x hx
          refine ⟨hparty, mem_close.mpr ⟨?_, hopen⟩⟩
          rintro rfl
          exact hplace (by rw [h.eq_of_slot hid hdst hx hslot])

end Connections

namespace Connections

variable {k : Connections} {clients : Set ℕ}

open SocketContext Sockets

theorem Served.reaches (h : Served clients k) : Reaches clients k :=
  fun c hc fd hfd => (h.slot c (.inl hc) fd hfd).1

theorem Served.spares (h : Served clients k) (e : SocketEvent) : Spares clients k e := by
  cases e with
  | received fd src =>
      intro hsrc x hopen hclosed c hc hparty
      have hclosed : x ∉ (k.sockets.register fd src).openFds := hclosed
      rcases k.sockets.register_eq fd src with ⟨oldFd, hslot, -, heq⟩ | ⟨-, heq⟩
      · rw [heq] at hclosed
        have hx : x = oldFd := by
          by_contra hne
          exact hclosed (mem_close.mpr ⟨hne, hopen⟩)
        rw [hx, (h.slot src (.inl hsrc) oldFd hslot).1] at hparty
        exact (Option.some.inj hparty).symm
      · rw [heq] at hclosed
        exact absurd hopen hclosed
  | accepted _ | connected _ _ | readFailed _ | sendFailed _ => trivial

/-- What every event leaves and does. -/
def Right (clients : Set ℕ) (k : Connections) (e : SocketEvent) : Prop :=
  Reaches clients (k.apply e) ∧ Spares clients k e

theorem Served.run (hids : ∀ c ∈ clients, k.sockets.sctx.numNodes ≤ c)
    (hinj : Set.InjOn (· % maxConnections) clients) (h : Served clients k)
    {events : List SocketEvent} (hp : Every (Proper clients) events k) :
    Every (Right clients) events k := by
  induction events generalizing k with
  | nil => trivial
  | cons e es ih =>
      obtain ⟨hproper, hrest⟩ := hp
      have hnext := h.apply hids hinj hproper
      refine ⟨⟨hnext.reaches, h.spares e⟩, ih ?_ hnext hrest⟩
      intro c hc
      show (e.apply k.sockets).sctx.numNodes ≤ c
      rw [numNodes_apply]
      exact hids c hc

/-- Two clients come one after the other, each over a connection of its own. -/
def twoClients (c c' fd fd' : ℕ) : List SocketEvent :=
  [.accepted fd, .received fd c, .accepted fd', .received fd' c']

theorem exists_fresh (l : List ℕ) : ∃ n, n ∉ l ∧ n + 1 ∉ n :: l := by
  have hbound : ∃ n, ∀ x ∈ l, x < n := by
    induction l with
    | nil => exact ⟨0, fun x hx => absurd hx List.not_mem_nil⟩
    | cons y l ih =>
        obtain ⟨n, hn⟩ := ih
        refine ⟨max n (y + 1), fun x hx => ?_⟩
        rcases List.mem_cons.mp hx with rfl | hx
        · omega
        · have := hn x hx
          omega
  obtain ⟨n, hn⟩ := hbound
  refine ⟨n, fun hmem => lt_irrefl n (hn n hmem), fun hmem => ?_⟩
  rcases List.mem_cons.mp hmem with heq | hmem
  · omega
  · have := hn _ hmem
    omega

theorem slot_init (numNodes id : ℕ) : (init numNodes).slot id = none := by
  have hkept := kept_start numNodes []
  cases hslot : (init numNodes).slot id with
  | none => rfl
  | some x => exact absurd (hkept.stored x (hkept.sized.stores_of_slot hslot)) List.not_mem_nil

/-- The first client is heard. -/
theorem apply_first {numNodes c fd : ℕ} {openFds : List ℕ} :
    ((start numNodes openFds).apply (.accepted fd)).apply (.received fd c) =
      ⟨⟨{ (init numNodes).setSlot c (some fd) with activeFds := [fd] }, fd :: openFds⟩,
        Function.update (Function.update (fun _ => none) fd none) fd (some c)⟩ := by
  have hslot : ({ init numNodes with activeFds := [fd] } : SocketContext).slot c = none :=
    slot_init numNodes c
  have hset : ({ init numNodes with activeFds := [fd] } : SocketContext).setSlot c (some fd) =
      { (init numNodes).setSlot c (some fd) with activeFds := [fd] } := by
    unfold SocketContext.setSlot
    split <;> rfl
  show Connections.mk
    (Sockets.register ⟨{ init numNodes with activeFds := [fd] }, fd :: openFds⟩ fd c) _ = _
  rw [register, hslot, hset]
  rfl

/-- A packet on a second connection closes the first one if they have the same slot. -/
theorem not_mem_register {s : Sockets} {fd fd' src : ℕ} (hslot : s.sctx.slot src = some fd)
    (hne : fd ≠ fd') : fd ∉ (s.register fd' src).openFds := by
  rcases s.register_eq fd' src with ⟨oldFd, hold, -, heq⟩ | ⟨hsame, -⟩
  · rw [heq]
    rw [hslot] at hold
    rw [← Option.some.inj hold]
    exact fun hmem => (mem_close.mp hmem).1 rfl
  · exact absurd (hsame fd hslot) hne

/-- With one slot for both, the second packet closes the connection of the first client. -/
theorem not_spared {numNodes c c' : ℕ} {openFds : List ℕ} (hc : c ∈ clients) (hc' : c' ∈ clients)
    (hids : ∀ c ∈ clients, numNodes ≤ c) (hne : c ≠ c')
    (hmod : c % maxConnections = c' % maxConnections) :
    ∃ events, Every (Proper clients) events (start numNodes openFds) ∧
      ¬Every (Right clients) events (start numNodes openFds) := by
  obtain ⟨fd, hnew, hnew'⟩ := exists_fresh openFds
  have hfirst := @apply_first numNodes c fd openFds
  -- both clients look here
  have hslot : ({ (init numNodes).setSlot c (some fd) with activeFds := [fd, fd + 1] } :
      SocketContext).slot c' = some fd := by
    have hsized : (init numNodes).Sized := (kept_start numNodes []).sized
    have hplace : (init numNodes).place c' = (init numNodes).place c := by
      have hge : ¬c < (init numNodes).numNodes := not_lt.mpr (hids c hc)
      have hge' : ¬c' < (init numNodes).numNodes := not_lt.mpr (hids c' hc')
      rw [place, place, if_neg hge, if_neg hge', hmod]
    exact hsized.slot_setSlot.trans (if_pos hplace)
  refine ⟨twoClients c c' fd (fd + 1), ⟨⟨hnew, trivial⟩, ?_, ?_, ?_, trivial⟩, ?_⟩
  · exact ⟨List.mem_singleton_self fd, .inl hc, .inl (Function.update_self _ _ _)⟩
  · rw [hfirst]
    exact ⟨hnew', trivial⟩
  · rw [hfirst]
    exact ⟨List.mem_cons_of_mem _ (List.mem_singleton_self _), .inl hc',
      .inl (Function.update_self _ _ _)⟩
  · rintro ⟨-, -, -, ⟨-, hspares⟩, -⟩
    rw [hfirst] at hspares
    have hclosed := @not_mem_register ⟨{ (init numNodes).setSlot c (some fd) with
      activeFds := [fd, fd + 1] }, (fd + 1) :: fd :: openFds⟩ fd (fd + 1) c' hslot
      (Nat.succ_ne_self fd).symm
    have hparty : Function.update (Function.update (Function.update (fun _ => none) fd none) fd
        (some c)) (fd + 1) none fd = some c := by
      rw [Function.update_of_ne (Nat.succ_ne_self fd).symm, Function.update_self]
    exact hne (hspares hc' fd (List.mem_cons_of_mem _ List.mem_cons_self) hclosed c hc hparty)

/-- Replies reach the right client, and nobody closes another's connection, in all runs
of a set of clients just if no two of their ids agree modulo the size of the table. -/
theorem clients_served_iff {numNodes : ℕ} {openFds : List ℕ} (hids : ∀ c ∈ clients, numNodes ≤ c) :
    (∀ events, Every (Proper clients) events (start numNodes openFds) →
      Every (Right clients) events (start numNodes openFds)) ↔
    Set.InjOn (· % maxConnections) clients := by
  constructor
  · intro hall c hc c' hc' hmod
    by_contra hne
    obtain ⟨events, hproper, hwrong⟩ := @not_spared clients numNodes c c' openFds hc hc' hids hne hmod
    exact hwrong (hall events hproper)
  · exact fun hinj events hp => (served_start numNodes openFds).run hids hinj hp

theorem clients_served_of_two :
    (∀ events, Every (Proper {5, 6}) events (start 3 [3]) → Every (Right {5, 6}) events (start 3 [3])) ↔
      Set.InjOn (· % maxConnections) {5, 6} := by
  refine clients_served_iff fun c hc => ?_
  rcases hc with rfl | rfl
  · decide
  · decide

/-- Client 2023 comes in over its own connection, and closes that of client 999. -/
theorem clients_not_served :
    ¬∀ (numNodes : ℕ) (clients : Set ℕ), (∀ c ∈ clients, numNodes ≤ c) → ∀ events,
      Every (Proper clients) events (start numNodes [3]) →
        Every (Right clients) events (start numNodes [3]) := by
  intro hall
  have hids : ∀ c ∈ ({999, 2023} : Set ℕ), 3 ≤ c := by
    rintro c (rfl | rfl)
    · decide
    · decide
  obtain ⟨events, hproper, hwrong⟩ := @not_spared {999, 2023} 3 999 2023 [3] (.inl rfl) (.inr rfl) hids
    (by decide) (by decide)
  exact hwrong (hall 3 _ hids events hproper)

end Connections

end GeoRaft
