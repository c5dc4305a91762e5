import Mathlib.Logic.Function.Basic
import GeoRaft.Transport.Tables

/-!
Two nodes that open connections to each other.

Each of them keeps the connection it was last heard on and closes the one it had, whatever
the other one has done to either. On a network that only delays, a connection that is open
at both ends is given up for another one of this kind, unless the packet that is read comes
over a connection which its sender has closed.
-/

namespace GeoRaft

inductive Side
  | left
  | right
  deriving DecidableEq, Repr

def Side.other : Side → Side
  | left => right
  | right => left

/-- One end of a connection: not accepted yet, under a descriptor, or closed. -/
inductive LinkEnd
  | backlog
  | held (fd : ℕ)
  | closed
  deriving DecidableEq, Repr

/-- A connection between the two, and how many packets are on their way to each. -/
structure Link where
  ends : Side → LinkEnd
  inFlight : Side → ℕ

namespace Link

/-- Neither of the two has closed its end. -/
def Live (l : Link) : Prop := ∀ n, l.ends n ≠ .closed

def setEnd (l : Link) (n : Side) (e : LinkEnd) : Link := { l with ends := Function.update l.ends n e }

instance (l : Link) : Decidable l.Live :=
  decidable_of_iff (l.ends .left ≠ .closed ∧ l.ends .right ≠ .closed)
    ⟨fun h n => by cases n; exacts [h.1, h.2], fun h => ⟨h .left, h .right⟩⟩

/-- `connect`: the other end is in the backlog of the listening socket. -/
def connect (n : Side) (fd : ℕ) : Link := setEnd ⟨fun _ => .backlog, fun _ => 0⟩ n (.held fd)

/-- The end of a descriptor that the process does not have any more is closed. -/
def settle (n : Side) (openFds : List ℕ) (l : Link) : Link :=
  match l.ends n with
  | .held fd => if fd ∈ openFds then l else l.setEnd n .closed
  | .backlog | .closed => l

/-- A packet from `n` is on its way, if this is where `fd` leads. -/
def sent (n : Side) (fd : ℕ) (l : Link) : Link :=
  if l.ends n = .held fd then
    { l with inFlight := Function.update l.inFlight n.other (l.inFlight n.other + 1) }
  else l

/-- `n` has read one. -/
def received (n : Side) (fd : ℕ) (l : Link) : Link :=
  if l.ends n = .held fd then
    { l with inFlight := Function.update l.inFlight n (l.inFlight n - 1) }
  else l

/-- `accept` returns the oldest connection in the backlog. -/
def accept (n : Side) (fd : ℕ) : List Link → List Link
  | [] => []
  | l :: ls => if l.ends n = .backlog then l.setEnd n (.held fd) :: ls else l :: accept n fd ls

end Link

/-- Two processes, and every connection there has been between them. -/
structure SocketPair where
  id : Side → ℕ
  sockets : Side → Sockets
  links : List Link

/-- An event at the tables of one of the two, or a whole packet that it has sent. -/
inductive PairEvent
  | socket (n : Side) (e : SocketEvent)
  | sent (n : Side)
  deriving DecidableEq, Repr

namespace SocketPair

variable {p : SocketPair}

/-- The descriptor that `n` has for the other one. -/
def slot (p : SocketPair) (n : Side) : Option ℕ := (p.sockets n).sctx.slot (p.id n.other)

/-- What becomes of the connections while `n` has not closed any. -/
def network (p : SocketPair) (n : Side) : SocketEvent → List Link
  | .accepted fd => Link.accept n fd p.links
  | .connected _ fd => p.links ++ [.connect n fd]
  | .received fd _ => p.links.map (.received n fd)
  | .readFailed _ | .sendFailed _ => p.links

def apply (p : SocketPair) : PairEvent → SocketPair
  | .socket n e =>
    let s := e.apply (p.sockets n)
    { p with
      sockets := Function.update p.sockets n s
      links := (p.network n e).map (.settle n s.openFds) }
  | .sent n =>
    match p.slot n with
    | some fd => { p with links := p.links.map (.sent n fd) }
    | none => p

/-- The network loses nothing, so a read or a send fails when the other end is closed, or
in the middle of a packet that takes too long. -/
def Possible (p : SocketPair) : PairEvent → Prop
  | .socket n e =>
    e.Possible (p.sockets n) ∧
      match e with
      | .accepted _ => ∃ l ∈ p.links, l.ends n = .backlog
      | .connected nodeId _ => nodeId = p.id n.other
      | .received fd src => src = p.id n.other ∧ ∃ l ∈ p.links, l.ends n = .held fd ∧ 0 < l.inFlight n
      | .readFailed fd =>
        ∃ l ∈ p.links, l.ends n = .held fd ∧ (l.ends n.other = .closed ∨ 0 < l.inFlight n)
      | .sendFailed dst =>
        dst = p.id n.other ∧ ∀ fd ∈ p.slot n,
          ∃ l ∈ p.links, l.ends n = .held fd ∧ (l.ends n.other = .closed ∨ 0 < l.inFlight n.other)
  | .sent n => p.slot n ≠ none

/-- The connection of `fd` at `n` is open at both ends. -/
def LiveAt (p : SocketPair) (n : Side) (fd : ℕ) : Prop := ∃ l ∈ p.links, l.ends n = .held fd ∧ l.Live

/-- No connection that is open at both ends is closed, except for another one. -/
def Spares (p : SocketPair) : PairEvent → Prop
  | .socket n (.accepted _) => (p.sockets n).sctx.activeFds.length < maxConnections
  | .socket n (.received fd _) => (∃ oldFd ∈ p.slot n, oldFd ≠ fd ∧ p.LiveAt n oldFd) → p.LiveAt n fd
  | .socket n (.readFailed fd) => ¬p.LiveAt n fd
  | .socket n (.sendFailed _) => ∀ fd ∈ p.slot n, ¬p.LiveAt n fd
  | .socket _ (.connected _ _) | .sent _ => True

instance (p : SocketPair) (n : Side) (fd : ℕ) : Decidable (p.LiveAt n fd) :=
  inferInstanceAs (Decidable (∃ l ∈ p.links, _ ∧ _))

instance (p : SocketPair) : ∀ e : PairEvent, Decidable (p.Possible e)
  | .socket n (.accepted fd) =>
    inferInstanceAs (Decidable ((SocketEvent.accepted fd).Possible (p.sockets n) ∧ _))
  | .socket n (.connected nodeId fd) =>
    inferInstanceAs (Decidable ((SocketEvent.connected nodeId fd).Possible (p.sockets n) ∧ _))
  | .socket n (.received fd src) =>
    inferInstanceAs (Decidable ((SocketEvent.received fd src).Possible (p.sockets n) ∧ _ ∧ _))
  | .socket n (.readFailed fd) =>
    inferInstanceAs (Decidable ((SocketEvent.readFailed fd).Possible (p.sockets n) ∧ _))
  | .socket n (.sendFailed dst) =>
    inferInstanceAs (Decidable ((SocketEvent.sendFailed dst).Possible (p.sockets n) ∧ _ ∧ _))
  | .sent n => inferInstanceAs (Decidable (p.slot n ≠ none))

instance (p : SocketPair) : ∀ e : PairEvent, Decidable (p.Spares e)
  | .socket n (.accepted _) =>
    inferInstanceAs (Decidable ((p.sockets n).sctx.activeFds.length < maxConnections))
  | .socket n (.received fd _) => inferInstanceAs
    (Decidable ((∃ oldFd ∈ p.slot n, oldFd ≠ fd ∧ p.LiveAt n oldFd) → p.LiveAt n fd))
  | .socket n (.readFailed fd) => inferInstanceAs (Decidable (¬p.LiveAt n fd))
  | .socket n (.sendFailed _) => inferInstanceAs (Decidable (∀ fd ∈ p.slot n, ¬p.LiveAt n fd))
  | .socket _ (.connected _ _) | .sent _ => inferInstanceAs (Decidable True)

/-- If there have been connections, one is open at both ends. -/
def Connected (p : SocketPair) : Prop := p.links ≠ [] → ∃ l ∈ p.links, l.Live

instance (p : SocketPair) : Decidable p.Connected := inferInstanceAs (Decidable (_ → _))

def start (numNodes : ℕ) (id : Side → ℕ) (openFds : Side → List ℕ) : SocketPair where
  id := id
  sockets := fun n => .start numNodes (openFds n)
  links := []

/-- `P` of every event, at the state it finds. -/
def Every (P : SocketPair → PairEvent → Prop) : List PairEvent → SocketPair → Prop
  | [], _ => True
  | e :: es, p => P p e ∧ Every P es (p.apply e)

/-- Every end that a process holds is one of its descriptors. -/
def Held (p : SocketPair) : Prop :=
  ∀ l ∈ p.links, ∀ n fd, l.ends n = .held fd → fd ∈ (p.sockets n).openFds

end SocketPair

namespace Link

variable {l : Link} {n m : Side} {fd : ℕ}

theorem setEnd_self (l : Link) (n : Side) (e : LinkEnd) : (l.setEnd n e).ends n = e :=
  Function.update_self _ _ _

theorem setEnd_of_ne (l : Link) (e : LinkEnd) (h : m ≠ n) : (l.setEnd n e).ends m = l.ends m :=
  Function.update_of_ne h _ _

theorem connect_self (n : Side) (fd : ℕ) : (connect n fd).ends n = .held fd :=
  setEnd_self _ _ _

theorem connect_of_ne (fd : ℕ) (h : m ≠ n) : (connect n fd).ends m = .backlog :=
  setEnd_of_ne _ _ h

theorem live_connect (n : Side) (fd : ℕ) : (connect n fd).Live := by
  intro m
  by_cases hm : m = n
  · subst hm
    rw [connect_self]
    simp
  · rw [connect_of_ne fd hm]
    simp

theorem ends_sent : (l.sent n fd).ends = l.ends := by
  unfold sent
  split <;> rfl

theorem ends_received : (l.received n fd).ends = l.ends := by
  unfold received
  split <;> rfl

theorem settle_of_ne (openFds : List ℕ) (h : m ≠ n) : (l.settle n openFds).ends m = l.ends m := by
  unfold settle
  split
  · split
    · rfl
    · exact Function.update_of_ne h _ _
  · rfl
  · rfl

theorem mem_of_settle {openFds : List ℕ} (h : (l.settle n openFds).ends n = .held fd) :
    fd ∈ openFds := by
  unfold settle at h
  split at h
  · rename_i x hx
    split at h
    · rename_i hmem
      rw [hx] at h
      rwa [← LinkEnd.held.inj h]
    · rw [setEnd_self] at h
      exact absurd h (by simp)
  · rename_i hbacklog
    rw [hbacklog] at h
    exact absurd h (by simp)
  · rename_i hclosed
    rw [hclosed] at h
    exact absurd h (by simp)

theorem settle_eq {openFds : List ℕ} (h : ∀ fd, l.ends n = .held fd → fd ∈ openFds) :
    l.settle n openFds = l := by
  unfold settle
  split
  · rename_i fd hfd
    exact if_pos (h fd hfd)
  · rfl
  · rfl

/-- One connection of the backlog becomes a descriptor. -/
theorem mem_accept {ls : List Link} (h : l ∈ accept n fd ls) :
    l ∈ ls ∨ ∃ l' ∈ ls, l'.ends n = .backlog ∧ l = l'.setEnd n (.held fd) := by
  induction ls with
  | nil => exact .inl h
  | cons x ls ih =>
      rw [accept] at h
      split at h
      · rename_i hbacklog
        rcases List.mem_cons.mp h with rfl | h
        · exact .inr ⟨x, List.mem_cons_self, hbacklog, rfl⟩
        · exact .inl (List.mem_cons_of_mem _ h)
      · rcases List.mem_cons.mp h with rfl | h
        · exact .inl List.mem_cons_self
        · rcases ih h with hmem | ⟨l', hmem, hrest⟩
          · exact .inl (List.mem_cons_of_mem _ hmem)
          · exact .inr ⟨l', List.mem_cons_of_mem _ hmem, hrest⟩

theorem accept_mem {ls : List Link} (h : l ∈ ls) :
    l ∈ accept n fd ls ∨ l.ends n = .backlog ∧ l.setEnd n (.held fd) ∈ accept n fd ls := by
  induction ls with
  | nil => exact .inl h
  | cons x ls ih =>
      rw [accept]
      split
      · rename_i hbacklog
        rcases List.mem_cons.mp h with rfl | h
        · exact .inr ⟨hbacklog, List.mem_cons_self⟩
        · exact .inl (List.mem_cons_of_mem _ h)
      · rcases List.mem_cons.mp h with rfl | h
        · exact .inl List.mem_cons_self
        · rcases ih h with hmem | ⟨hbacklog, hmem⟩
          · exact .inl (List.mem_cons_of_mem _ hmem)
          · exact .inr ⟨hbacklog, List.mem_cons_of_mem _ hmem⟩

theorem Live.setEnd (h : l.Live) (n : Side) (fd : ℕ) : (l.setEnd n (.held fd)).Live := by
  intro m
  by_cases hm : m = n
  · subst hm
    rw [setEnd_self]
    simp
  · rw [setEnd_of_ne _ _ hm]
    exact h m

end Link

namespace SocketPair

variable {p : SocketPair} {n m : Side}

theorem apply_sent (p : SocketPair) (n : Side) :
    p.apply (.sent n) = p ∨
      ∃ fd, p.apply (.sent n) = { p with links := p.links.map (.sent n fd) } := by
  cases hslot : p.slot n with
  | none => exact .inl (by rw [apply, hslot])
  | some fd => exact .inr ⟨fd, by rw [apply, hslot]⟩

/-- At the other side nothing has happened. -/
theorem mem_network {e : SocketEvent} {l : Link} (h : l ∈ p.network n e) (hm : m ≠ n) :
    l.ends m = .backlog ∨ ∃ l' ∈ p.links, l'.ends m = l.ends m := by
  cases e with
  | accepted fd =>
      rcases Link.mem_accept h with hl | ⟨l', hl, -, rfl⟩
      · exact .inr ⟨l, hl, rfl⟩
      · exact .inr ⟨l', hl, (Link.setEnd_of_ne _ _ hm).symm⟩
  | connected nodeId fd =>
      rcases List.mem_append.mp h with h | h
      · exact .inr ⟨l, h, rfl⟩
      · rw [List.mem_singleton.mp h]
        exact .inl (Link.connect_of_ne fd hm)
  | received fd src =>
      obtain ⟨l', hl, rfl⟩ := List.mem_map.mp h
      exact .inr ⟨l', hl, congrFun Link.ends_received.symm m⟩
  | readFailed _ | sendFailed _ => exact .inr ⟨l, h, rfl⟩

theorem Held.apply (h : p.Held) (e : PairEvent) : (p.apply e).Held := by
  cases e with
  | sent n =>
      rcases p.apply_sent n with heq | ⟨fd, heq⟩
      · rw [heq]
        exact h
      · rw [heq]
        intro l hl m x hx
        obtain ⟨l', hmem, rfl⟩ := List.mem_map.mp hl
        rw [Link.ends_sent] at hx
        exact h l' hmem m x hx
  | socket n e =>
      intro l hl m x hx
      obtain ⟨l', hmem, rfl⟩ := List.mem_map.mp hl
      show x ∈ (Function.update p.sockets n (e.apply (p.sockets n)) m).openFds
      by_cases hm : m = n
      · subst hm
        rw [Function.update_self]
        exact Link.mem_of_settle hx
      · rw [Function.update_of_ne hm]
        rw [Link.settle_of_ne _ hm] at hx
        rcases mem_network hmem hm with hbacklog | ⟨l'', hl'', hends⟩
        · rw [hbacklog] at hx
          exact absurd hx (by simp)
        · exact h l'' hl'' m x (hends.trans hx)

/-- A connection that is open at both ends stays so if its descriptor does. -/
theorem connected_of_mem {e : SocketEvent} {l : Link} (h : l ∈ p.network n e) (hlive : l.Live)
    (hopen : ∀ fd, l.ends n = .held fd → fd ∈ (e.apply (p.sockets n)).openFds) :
    (p.apply (.socket n e)).Connected := by
  refine fun _ => ⟨l, List.mem_map.mpr ⟨l, h, ?_⟩, hlive⟩
  exact Link.settle_eq hopen

/-- What a packet that is read leaves open: its own connection, and all but the old one. -/
theorem mem_register {s : Sockets} {fd src x : ℕ} (hx : x ∈ s.openFds)
    (hold : ∀ oldFd, s.sctx.slot src = some oldFd → oldFd ≠ fd → x ≠ oldFd) :
    x ∈ (s.register fd src).openFds := by
  rcases s.register_eq fd src with ⟨oldFd, hslot, hne, heq⟩ | ⟨-, heq⟩
  · rw [heq]
    exact Sockets.mem_close.mpr ⟨hold oldFd hslot hne, hx⟩
  · rw [heq]
    exact hx

theorem Held.connected_received (h : p.Held) {fd src : ℕ} (hc : p.Connected)
    (hp : p.Possible (.socket n (.received fd src))) (hs : p.Spares (.socket n (.received fd src))) :
    (p.apply (.socket n (.received fd src))).Connected := by
  obtain ⟨-, rfl, l₀, hl₀, -⟩ := hp
  have hmem : ∀ l ∈ p.links, l.received n fd ∈ p.network n (.received fd (p.id n.other)) :=
    fun l hl => List.mem_map.mpr ⟨l, hl, rfl⟩
  have hlive : ∀ l : Link, l.Live → (l.received n fd).Live := by
    intro l hl m
    rw [Link.ends_received]
    exact hl m
  by_cases hfd : p.LiveAt n fd
  · -- the packet comes over a connection that is open at both ends
    obtain ⟨l, hl, hends, hl'⟩ := hfd
    refine connected_of_mem (hmem l hl) (hlive l hl') fun x hx => ?_
    rw [Link.ends_received, hends] at hx
    obtain rfl := LinkEnd.held.inj hx
    exact mem_register (h l hl n fd hends) fun oldFd _ hne => hne.symm
  · -- so the one that is closed is not
    obtain ⟨l, hl, hl'⟩ := hc (List.ne_nil_of_mem hl₀)
    refine connected_of_mem (hmem l hl) (hlive l hl') fun x hx => ?_
    rw [Link.ends_received] at hx
    refine mem_register (h l hl n x hx) ?_
    rintro oldFd hslot hne rfl
    exact hfd (hs ⟨x, hslot, hne, l, hl, hx, hl'⟩)

theorem Held.connected (h : p.Held) {e : PairEvent} (hc : p.Connected) (hp : p.Possible e)
    (hs : p.Spares e) : (p.apply e).Connected := by
  cases e with
  | sent n =>
      rcases p.apply_sent n with heq | ⟨fd, heq⟩
      · rw [heq]
        exact hc
      · rw [heq]
        intro hne
        obtain ⟨l, hl, hlive⟩ := hc (fun hnil => hne (by rw [hnil]; rfl))
        refine ⟨l.sent n fd, List.mem_map.mpr ⟨l, hl, rfl⟩, fun m => ?_⟩
        rw [Link.ends_sent]
        exact hlive m
  | socket n e =>
      cases e with
      | accepted fd =>
          obtain ⟨hnew, l₀, hl₀, -⟩ := hp
          have hopened : ((p.sockets n).accept fd).openFds = fd :: (p.sockets n).openFds := by
            unfold Sockets.accept
            exact congrArg Sockets.openFds (if_pos hs)
          obtain ⟨l, hl, hlive⟩ := hc (List.ne_nil_of_mem hl₀)
          rcases Link.accept_mem hl with hmem | ⟨-, hmem⟩
          · refine connected_of_mem hmem hlive fun x hx => ?_
            show x ∈ ((p.sockets n).accept fd).openFds
            rw [hopened]
            exact List.mem_cons_of_mem _ (h l hl n x hx)
          · refine connected_of_mem hmem (hlive.setEnd n fd) fun x hx => ?_
            rw [Link.setEnd_self] at hx
            show x ∈ ((p.sockets n).accept fd).openFds
            rw [hopened, ← LinkEnd.held.inj hx]
            exact List.mem_cons_self
      | connected nodeId fd =>
          have hmem : Link.connect n fd ∈ p.network n (.connected nodeId fd) :=
            List.mem_append_right _ (List.mem_singleton_self _)
          refine connected_of_mem hmem (Link.live_connect n fd) fun x hx => ?_
          rw [Link.connect_self] at hx
          rw [← LinkEnd.held.inj hx]
          exact List.mem_cons_self
      | received fd src => exact h.connected_received hc hp hs
      | readFailed fd =>
          obtain ⟨-, l₀, hl₀, -⟩ := hp
          obtain ⟨l, hl, hlive⟩ := hc (List.ne_nil_of_mem hl₀)
          refine @connected_of_mem p n (.readFailed fd) l hl hlive fun x hx => ?_
          refine Sockets.mem_close.mpr ⟨?_, h l hl n x hx⟩
          rintro rfl
          exact hs ⟨l, hl, hx, hlive⟩
      | sendFailed dst =>
          obtain ⟨hslot, rfl, hlink⟩ := hp
          obtain ⟨fd, hfd⟩ := Option.ne_none_iff_exists'.mp hslot
          obtain ⟨l₀, hl₀, -⟩ := hlink fd hfd
          obtain ⟨l, hl, hlive⟩ := hc (List.ne_nil_of_mem hl₀)
          refine @connected_of_mem p n (.sendFailed _) l hl hlive fun x hx => ?_
          show x ∈ ((p.sockets n).errClose (p.id n.other)).openFds
          rw [Sockets.errClose, hfd]
          refine Sockets.mem_close.mpr ⟨?_, h l hl n x hx⟩
          rintro rfl
          exact hs x hfd ⟨l, hl, hx, hlive⟩

theorem Held.run (h : p.Held) (hc : p.Connected) {events : List PairEvent}
    (hp : Every Possible events p) (hs : Every Spares events p) :
    Every (fun p e => (p.apply e).Connected) events p := by
  induction events generalizing p with
  | nil => trivial
  | cons e es ih =>
      have hnext := h.connected hc hp.1 hs.1
      exact ⟨hnext, ih (h.apply e) hnext hp.2 hs.2⟩

/-- Two nodes that always spare what is open at both ends never close every connection
between them. -/
theorem always_connected {numNodes : ℕ} {id : Side → ℕ} {openFds : Side → List ℕ}
    {events : List PairEvent} (hp : Every Possible events (start numNodes id openFds))
    (hs : Every Spares events (start numNodes id openFds)) :
    (start numNodes id openFds).Connected ∧
      Every (fun p e => (p.apply e).Connected) events (start numNodes id openFds) := by
  have hheld : (start numNodes id openFds).Held := fun l hl => absurd hl List.not_mem_nil
  have hconnected : (start numNodes id openFds).Connected := fun hne => absurd rfl hne
  exact ⟨hconnected, hheld.run hconnected hp hs⟩

/-! ### Connections that cross -/

/-- Both open a connection and send a packet before they have heard of the other one's. -/
def crossed : List PairEvent :=
  [.socket .left (.connected 1 5), .socket .right (.connected 0 5), .sent .left, .sent .right,
    .socket .right (.accepted 6), .socket .left (.accepted 6), .socket .right (.received 6 0),
    .socket .left (.received 6 1)]

def nodeId : Side → ℕ
  | .left => 0
  | .right => 1

/-- Each has closed the connection it has opened itself. -/
theorem crossed_not_connected :
    Every Possible crossed (start 3 nodeId fun _ => [3]) ∧
      ¬Every (fun p e => (p.apply e).Connected) crossed (start 3 nodeId fun _ => [3]) := by
  have hpossible : Every Possible crossed (start 3 nodeId fun _ => [3]) := by
    unfold crossed
    simp only [Every]
    decide +kernel
  refine ⟨hpossible, ?_⟩
  rintro ⟨-, -, -, -, -, -, -, hlast, -⟩
  revert hlast
  decide +kernel

/-- The same, when the packet from the left is read before the right one opens another. -/
theorem connected_of_one :
    Every (fun p e => (p.apply e).Connected)
      [.socket .left (.connected 1 5), .sent .left, .socket .right (.accepted 6),
        .socket .right (.received 6 0), .sent .right, .socket .left (.received 5 1)]
      (start 3 nodeId fun _ => [3]) := by
  refine (always_connected ?_ ?_).2
  · simp only [Every]
    decide +kernel
  · simp only [Every]
    decide +kernel

end SocketPair

end GeoRaft
