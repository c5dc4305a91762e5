import Mathlib.Data.List.Nodup
import Mathlib.Data.List.Perm.Basic
import GeoRaft.Transport.Socket

/-!
What the three tables of descriptors have to do with each other.

A descriptor is closed at three places, and only `err_recv` takes it out of every slot
that holds it. As long as no other one holds it, and a connection that is opened is
watched, whatever is in a slot is open and watched.
-/

namespace GeoRaft

namespace SocketContext

variable {sctx : SocketContext} {fd : ℕ}

/-! ### Removing a descriptor from those that are watched -/

theorem count_dropLast_set {l : List ℕ} {i x last : ℕ} (hi : i < l.length)
    (hlast : l.getLast? = some last) :
    (l.set i last).dropLast.count x = l.count x - if l[i] == x then 1 else 0 := by
  have hlen : (l.set i last).length = l.length := List.length_set
  have hne : l.set i last ≠ [] := List.ne_nil_of_length_pos (by omega)
  -- the last element is the same before and after
  have hend : (l.set i last).getLast hne = last := by
    rw [List.getLast_eq_getElem, List.getElem_set]
    split
    · rfl
    · rw [List.getLast?_eq_getElem?] at hlast
      obtain ⟨_, heq⟩ := List.getElem?_eq_some_iff.mp hlast
      simpa [hlen] using heq
  have hcount := congrArg (List.count x) (List.dropLast_append_getLast hne)
  rw [List.count_append, hend, List.count_set hi, List.count_singleton] at hcount
  omega

theorem removeActiveFd_perm (sctx : SocketContext) (fd : ℕ) :
    (sctx.removeActiveFd fd).activeFds.Perm (sctx.activeFds.erase fd) := by
  unfold removeActiveFd
  split
  · rename_i hnone
    have hmem : fd ∉ sctx.activeFds := by
      intro hmem
      have := List.findIdx?_eq_none_iff.mp hnone fd hmem
      simp at this
    rw [List.erase_of_not_mem hmem]
  · rename_i i hi
    obtain ⟨hlt, heq, -⟩ := List.findIdx?_eq_some_iff_getElem.mp hi
    have heq : sctx.activeFds[i] = fd := by simpa using heq
    have hne : sctx.activeFds ≠ [] := List.ne_nil_of_length_pos (by omega)
    have hlast := List.getLast?_eq_some_getLast hne
    rw [List.perm_iff_count]
    intro x
    rw [hlast, Option.getD_some, List.count_erase, ← heq]
    exact count_dropLast_set hlt hlast

theorem mem_removeActiveFd (h : sctx.activeFds.Nodup) {x : ℕ} :
    x ∈ (sctx.removeActiveFd fd).activeFds ↔ x ≠ fd ∧ x ∈ sctx.activeFds := by
  rw [(removeActiveFd_perm sctx fd).mem_iff, h.mem_erase_iff]

theorem nodup_removeActiveFd (h : sctx.activeFds.Nodup) :
    (sctx.removeActiveFd fd).activeFds.Nodup :=
  (removeActiveFd_perm sctx fd).nodup_iff.mpr (h.erase fd)

theorem length_removeActiveFd_le (sctx : SocketContext) (fd : ℕ) :
    (sctx.removeActiveFd fd).activeFds.length ≤ sctx.activeFds.length := by
  rw [(removeActiveFd_perm sctx fd).length_eq]
  exact List.length_erase_le

theorem removeActiveFd_eq (sctx : SocketContext) (fd : ℕ) :
    sctx.removeActiveFd fd =
      { sctx with activeFds := (sctx.removeActiveFd fd).activeFds } := by
  unfold removeActiveFd
  split <;> rfl

/-! ### The slots of both tables in one row -/

def slots (sctx : SocketContext) : List (Option ℕ) := sctx.peerFds ++ sctx.clientFds

/-- Where the slot of an id is in the row. -/
def place (sctx : SocketContext) (id : ℕ) : ℕ :=
  if id < sctx.numNodes then id else sctx.numNodes + id % maxConnections

/-- The two tables have the sizes they are made with. -/
structure Sized (sctx : SocketContext) : Prop where
  peerFds : sctx.peerFds.length = sctx.numNodes
  clientFds : sctx.clientFds.length = maxConnections

theorem Sized.place_lt (h : sctx.Sized) (id : ℕ) : sctx.place id < sctx.slots.length := by
  have hmod : id % maxConnections < maxConnections := Nat.mod_lt _ (by decide)
  rw [slots, List.length_append, h.peerFds, h.clientFds, place]
  split <;> omega

theorem Sized.slot_eq (h : sctx.Sized) (id : ℕ) : sctx.slots[sctx.place id]? = some (sctx.slot id) := by
  have hmod : id % maxConnections < maxConnections := Nat.mod_lt _ (by decide)
  unfold slot place slots
  split
  · rename_i hid
    rw [List.getElem?_append_left (by rw [h.peerFds]; exact hid), List.getD_eq_getElem?_getD,
      List.getElem?_eq_getElem (by rw [h.peerFds]; exact hid)]
    rfl
  · rw [List.getElem?_append_right (by rw [h.peerFds]; omega), h.peerFds, Nat.add_sub_cancel_left,
      List.getD_eq_getElem?_getD, List.getElem?_eq_getElem (by rw [h.clientFds]; exact hmod)]
    rfl

theorem Sized.slots_setSlot (h : sctx.Sized) (id : ℕ) (fd : Option ℕ) :
    (sctx.setSlot id fd).slots = sctx.slots.set (sctx.place id) fd := by
  unfold setSlot place slots
  split
  · rename_i hid
    rw [List.set_append_left _ _ (by rw [h.peerFds]; exact hid)]
  · rw [List.set_append_right _ _ (by rw [h.peerFds]; omega), h.peerFds, Nat.add_sub_cancel_left]

theorem Sized.setSlot (h : sctx.Sized) (id : ℕ) (fd : Option ℕ) : (sctx.setSlot id fd).Sized := by
  unfold SocketContext.setSlot
  split
  · exact ⟨by simpa using h.peerFds, h.clientFds⟩
  · exact ⟨h.peerFds, by simpa using h.clientFds⟩

theorem setSlot_activeFds (sctx : SocketContext) (id : ℕ) (fd : Option ℕ) :
    (sctx.setSlot id fd).activeFds = sctx.activeFds := by
  unfold SocketContext.setSlot
  split <;> rfl

theorem slots_forget (sctx : SocketContext) (fd : ℕ) :
    (sctx.forget fd).slots = sctx.slots.map fun x => if x = some fd then none else x := by
  rw [slots, slots, List.map_append]
  rfl

/-- The descriptor is in a slot of one of the tables. -/
def Stores (sctx : SocketContext) (fd : ℕ) : Prop := some fd ∈ sctx.slots

/-- It is in no other slot. -/
def Sole (sctx : SocketContext) (fd : ℕ) : Prop := sctx.slots.count (some fd) ≤ 1

instance (sctx : SocketContext) (fd : ℕ) : Decidable (sctx.Stores fd) :=
  inferInstanceAs (Decidable (_ ∈ _))

instance (sctx : SocketContext) (fd : ℕ) : Decidable (sctx.Sole fd) :=
  inferInstanceAs (Decidable (_ ≤ _))

theorem Sized.stores_of_slot (h : sctx.Sized) {id : ℕ} (hslot : sctx.slot id = some fd) :
    sctx.Stores fd := by
  have hget := h.slot_eq id
  rw [hslot] at hget
  exact List.mem_of_getElem? hget

/-- What is left in the slots when one of them is overwritten. -/
theorem Sized.count_setSlot (h : sctx.Sized) (id : ℕ) (v : Option ℕ) (x : ℕ) :
    (sctx.setSlot id v).slots.count (some x) = sctx.slots.count (some x) -
      (if sctx.slot id = some x then 1 else 0) + if v = some x then 1 else 0 := by
  have hlt := h.place_lt id
  obtain ⟨_, hget⟩ := List.getElem?_eq_some_iff.mp (h.slot_eq id)
  rw [h.slots_setSlot, List.count_set hlt, hget]
  simp

theorem Sized.stores_setSlot (h : sctx.Sized) {id x : ℕ} {v : Option ℕ}
    (hx : (sctx.setSlot id v).Stores x) : v = some x ∨ sctx.Stores x := by
  rw [Stores, h.slots_setSlot] at hx
  rcases List.mem_or_eq_of_mem_set hx with hx | hx
  · exact .inr hx
  · exact .inl hx.symm

/-- A descriptor that was the one in a slot, and in no other, is gone. -/
theorem Sized.stores_replaced (h : sctx.Sized) {id : ℕ} {v : Option ℕ}
    (hslot : sctx.slot id = some fd) (hv : v ≠ some fd) :
    (sctx.setSlot id v).Stores fd ↔ ¬sctx.Sole fd := by
  have hcount := h.count_setSlot id v fd
  rw [if_pos hslot, if_neg hv] at hcount
  rw [Stores, ← List.count_pos_iff, hcount, Sole]
  omega

end SocketContext

namespace Sockets

variable {s : Sockets} {fd : ℕ}

open SocketContext

/-- What the tables promise. -/
structure Consistent (s : Sockets) : Prop where
  stored : ∀ fd, s.sctx.Stores fd → fd ∈ s.openFds ∧ s.sctx.activeFds.count fd = 1
  active : ∀ fd ∈ s.sctx.activeFds, fd ∈ s.openFds
  bound : s.sctx.activeFds.length ≤ maxConnections

/-- And what they need for it to stay so. -/
structure Kept (s : Sockets) : Prop where
  sized : s.sctx.Sized
  nodup : s.sctx.activeFds.Nodup
  active : ∀ fd ∈ s.sctx.activeFds, fd ∈ s.openFds
  stored : ∀ fd, s.sctx.Stores fd → fd ∈ s.sctx.activeFds
  bound : s.sctx.activeFds.length ≤ maxConnections

theorem Kept.consistent (h : s.Kept) : s.Consistent where
  stored fd hfd :=
    ⟨h.active fd (h.stored fd hfd), List.count_eq_one_of_mem h.nodup (h.stored fd hfd)⟩
  active := h.active
  bound := h.bound

/-- A process whose transport was just made. -/
def start (numNodes : ℕ) (openFds : List ℕ) : Sockets := ⟨.init numNodes, openFds⟩

theorem kept_start (numNodes : ℕ) (openFds : List ℕ) : (start numNodes openFds).Kept := by
  refine ⟨⟨List.length_replicate, List.length_replicate⟩, List.nodup_nil, ?_, ?_, Nat.zero_le _⟩
  · intro fd hfd
    exact absurd hfd List.not_mem_nil
  · intro fd hfd
    rw [Stores, slots] at hfd
    rcases List.mem_append.mp hfd with hfd | hfd
    · exact absurd (List.eq_of_mem_replicate hfd) (by simp)
    · exact absurd (List.eq_of_mem_replicate hfd) (by simp)

/-! ### One event -/

theorem mem_close {x : ℕ} : x ∈ (s.close fd).openFds ↔ x ≠ fd ∧ x ∈ s.openFds := by
  simp [close, and_comm]

/-- A new descriptor that is watched. -/
theorem Kept.watch (h : s.Kept) (hnew : fd ∉ s.openFds)
    (hroom : s.sctx.activeFds.length < maxConnections) {sctx : SocketContext}
    (hsized : sctx.Sized) (hactive : sctx.activeFds = s.sctx.activeFds)
    (hstores : ∀ x, sctx.Stores x → x = fd ∨ s.sctx.Stores x) :
    Kept { s.opened fd with sctx := sctx.watch fd } := by
  have hfresh : fd ∉ s.sctx.activeFds := fun hmem => hnew (h.active fd hmem)
  have heq : sctx.watch fd = { sctx with activeFds := s.sctx.activeFds ++ [fd] } := by
    rw [SocketContext.watch, hactive, if_pos hroom]
  rw [heq]
  refine ⟨⟨hsized.peerFds, hsized.clientFds⟩, ?_, ?_, ?_, ?_⟩
  · exact List.nodup_append.mpr ⟨h.nodup, List.nodup_singleton fd, fun x hx y hy heq =>
      hfresh (List.mem_singleton.mp hy ▸ heq ▸ hx)⟩
  · intro x hx
    rcases List.mem_append.mp hx with hx | hx
    · exact List.mem_cons_of_mem _ (h.active x hx)
    · rw [List.mem_singleton.mp hx]
      exact List.mem_cons_self
  · intro x hx
    rcases hstores x hx with rfl | hx
    · exact List.mem_append_right _ (List.mem_singleton_self _)
    · exact List.mem_append_left _ (h.stored x hx)
  · rw [List.length_append]
    exact hroom

theorem Kept.accept (h : s.Kept) (hnew : fd ∉ s.openFds) : (s.accept fd).Kept := by
  unfold Sockets.accept
  dsimp only
  split
  · rename_i hroom
    exact h.watch hnew hroom h.sized rfl fun x hx => .inr hx
  · -- closed again at once
    refine ⟨h.sized, h.nodup, fun x hx => ?_, h.stored, h.bound⟩
    have hopen := h.active x hx
    refine mem_close.mpr ⟨?_, List.mem_cons_of_mem _ hopen⟩
    rintro rfl
    exact hnew hopen

theorem Kept.connectToPeer (h : s.Kept) {nodeId : ℕ} (hnew : fd ∉ s.openFds)
    (hroom : s.sctx.activeFds.length < maxConnections) : (s.connectToPeer nodeId fd).Kept := by
  refine h.watch hnew hroom (h.sized.setSlot nodeId _) (setSlot_activeFds _ _ _) fun x hx => ?_
  rcases h.sized.stores_setSlot hx with heq | hx
  · exact .inl (Option.some.inj heq).symm
  · exact .inr hx

/-- The descriptor of a slot is closed and taken out of it, and another may be put in. -/
theorem Kept.replace (h : s.Kept) {id : ℕ} {v : Option ℕ} (hslot : s.sctx.slot id = some fd)
    (hsole : s.sctx.Sole fd) (hv : v ≠ some fd) (hstored : ∀ x, v = some x → x ∈ s.sctx.activeFds) :
    Kept { s.close fd with sctx := (s.sctx.removeActiveFd fd).setSlot id v } := by
  have hsized : (s.sctx.removeActiveFd fd).Sized := by
    rw [removeActiveFd_eq]
    exact ⟨h.sized.peerFds, h.sized.clientFds⟩
  have hslot' : (s.sctx.removeActiveFd fd).slot id = some fd := by
    rw [removeActiveFd_eq]
    exact hslot
  have hsole' : (s.sctx.removeActiveFd fd).Sole fd := by
    rw [removeActiveFd_eq]
    exact hsole
  refine ⟨hsized.setSlot id v, ?_, ?_, ?_, ?_⟩
  · rw [setSlot_activeFds]
    exact nodup_removeActiveFd h.nodup
  · intro x hx
    rw [setSlot_activeFds, mem_removeActiveFd h.nodup] at hx
    exact mem_close.mpr ⟨hx.1, h.active x hx.2⟩
  · intro x hx
    rw [setSlot_activeFds, mem_removeActiveFd h.nodup]
    refine ⟨?_, ?_⟩
    · rintro rfl
      exact (hsized.stores_replaced hslot' hv).mp hx hsole'
    · rcases hsized.stores_setSlot hx with heq | hx
      · exact hstored x heq
      · rw [removeActiveFd_eq] at hx
        exact h.stored x hx
  · rw [setSlot_activeFds]
    exact Nat.le_trans (length_removeActiveFd_le _ _) h.bound

/-- A descriptor that is closed while another slot holds it stays there. -/
theorem not_consistent_of_not_sole (hsized : s.sctx.Sized) {id : ℕ} {v : Option ℕ}
    (hslot : s.sctx.slot id = some fd) (hsole : ¬s.sctx.Sole fd) (hv : v ≠ some fd) :
    ¬Consistent { s.close fd with sctx := (s.sctx.removeActiveFd fd).setSlot id v } := by
  intro hcons
  have hsized' : (s.sctx.removeActiveFd fd).Sized := by
    rw [removeActiveFd_eq]
    exact ⟨hsized.peerFds, hsized.clientFds⟩
  have hslot' : (s.sctx.removeActiveFd fd).slot id = some fd := by
    rw [removeActiveFd_eq]
    exact hslot
  have hsole' : ¬(s.sctx.removeActiveFd fd).Sole fd := by
    rw [removeActiveFd_eq]
    exact hsole
  obtain ⟨hopen, -⟩ := hcons.stored fd ((hsized'.stores_replaced hslot' hv).mpr hsole')
  exact (mem_close.mp hopen).1 rfl

theorem Kept.errRecv (h : s.Kept) (fd : ℕ) : (s.errRecv fd).Kept := by
  have hslots : (s.errRecv fd).sctx.slots =
      s.sctx.slots.map fun x => if x = some fd then none else x := by
    rw [Sockets.errRecv, slots_forget, removeActiveFd_eq]
    rfl
  have hactive : (s.errRecv fd).sctx.activeFds = (s.sctx.removeActiveFd fd).activeFds := rfl
  refine ⟨?_, ?_, ?_, ?_, ?_⟩
  · rw [Sockets.errRecv, removeActiveFd_eq]
    exact ⟨by simpa [forget] using h.sized.peerFds, by simpa [forget] using h.sized.clientFds⟩
  · rw [hactive]
    exact nodup_removeActiveFd h.nodup
  · intro x hx
    rw [hactive, mem_removeActiveFd h.nodup] at hx
    exact mem_close.mpr ⟨hx.1, h.active x hx.2⟩
  · intro x hx
    rw [Stores, hslots] at hx
    obtain ⟨y, hy, heq⟩ := List.mem_map.mp hx
    split at heq
    · exact absurd heq (by simp)
    · rename_i hne
      rw [heq] at hne hy
      rw [hactive, mem_removeActiveFd h.nodup]
      exact ⟨fun hxfd => hne (by rw [hxfd]), h.stored x hy⟩
  · rw [hactive]
    exact Nat.le_trans (length_removeActiveFd_le _ _) h.bound

end Sockets

/-! ### Runs -/

/-- The step leaves no descriptor behind: a connection is opened only when there is room
to watch it, and what is closed is in no slot but the one it is taken out of. -/
def SocketEvent.Clean (s : Sockets) : SocketEvent → Prop
  | .connected _ _ => s.sctx.activeFds.length < maxConnections
  | .received fd src => ∀ oldFd ∈ s.sctx.slot src, oldFd ≠ fd → s.sctx.Sole oldFd
  | .sendFailed dst => ∀ fd ∈ s.sctx.slot dst, s.sctx.Sole fd
  | .accepted _ | .readFailed _ => True

instance (s : Sockets) : ∀ e : SocketEvent, Decidable (e.Clean s)
  | .connected _ _ => inferInstanceAs (Decidable (s.sctx.activeFds.length < maxConnections))
  | .received fd src =>
    inferInstanceAs (Decidable (∀ oldFd ∈ s.sctx.slot src, oldFd ≠ fd → s.sctx.Sole oldFd))
  | .sendFailed dst => inferInstanceAs (Decidable (∀ fd ∈ s.sctx.slot dst, s.sctx.Sole fd))
  | .accepted _ | .readFailed _ => inferInstanceAs (Decidable True)

namespace Sockets

variable {s : Sockets} {fd : ℕ}

open SocketContext

theorem register_eq (s : Sockets) (fd src : ℕ) :
    (∃ oldFd, s.sctx.slot src = some oldFd ∧ oldFd ≠ fd ∧ s.register fd src =
      { s.close oldFd with sctx := (s.sctx.removeActiveFd oldFd).setSlot src (some fd) }) ∨
    (∀ oldFd, s.sctx.slot src = some oldFd → oldFd = fd) ∧
      s.register fd src = { s with sctx := s.sctx.setSlot src (some fd) } := by
  unfold register
  split
  · rename_i oldFd hslot
    by_cases hne : oldFd = fd
    · refine .inr ⟨fun x hx => ?_, by rw [if_neg (not_not.mpr hne)]⟩
      rw [hslot] at hx
      rw [← Option.some.inj hx, hne]
    · exact .inl ⟨oldFd, hslot, hne, by rw [if_pos hne]⟩
  · rename_i hnone
    refine .inr ⟨fun x hx => ?_, rfl⟩
    rw [hnone] at hx
    exact absurd hx (by simp)

theorem Kept.overwrite (h : s.Kept) (id : ℕ) (hfd : fd ∈ s.sctx.activeFds) :
    Kept { s with sctx := s.sctx.setSlot id (some fd) } := by
  have hactive := setSlot_activeFds s.sctx id (some fd)
  refine ⟨h.sized.setSlot id _, by rw [hactive]; exact h.nodup, ?_, ?_, by rw [hactive]; exact h.bound⟩
  · intro x hx
    rw [hactive] at hx
    exact h.active x hx
  · intro x hx
    rw [hactive]
    rcases h.sized.stores_setSlot hx with heq | hx
    · rw [← Option.some.inj heq]
      exact hfd
    · exact h.stored x hx

theorem Kept.apply (h : s.Kept) {e : SocketEvent} (hp : e.Possible s) (hc : e.Clean s) :
    (e.apply s).Kept := by
  cases e with
  | accepted fd => exact h.accept hp
  | connected nodeId fd => exact h.connectToPeer hp.2.2 hc
  | received fd src =>
      rw [SocketEvent.apply]
      rcases s.register_eq fd src with ⟨oldFd, hslot, hne, heq⟩ | ⟨-, heq⟩
      · rw [heq]
        refine h.replace hslot (hc oldFd hslot hne) (fun hsome => hne (Option.some.inj hsome).symm) ?_
        intro x hx
        rw [← Option.some.inj hx]
        exact hp
      · rw [heq]
        exact h.overwrite src hp
  | readFailed fd => exact h.errRecv fd
  | sendFailed dst =>
      rw [SocketEvent.apply, errClose]
      split
      · exact h
      · rename_i fd hslot
        exact h.replace hslot (hc fd hslot) (by simp) (by simp)

theorem Kept.clean_of_consistent (h : s.Kept) {e : SocketEvent} (hp : e.Possible s)
    (hcons : (e.apply s).Consistent) : e.Clean s := by
  by_contra hunclean
  cases e with
  | accepted fd => exact hunclean trivial
  | connected nodeId fd =>
      obtain ⟨hlt, -, hnew⟩ := hp
      -- it is in its slot, and watched nowhere
      have hfull : (s.sctx.setSlot nodeId (some fd)).watch fd = s.sctx.setSlot nodeId (some fd) := by
        have hroom : ¬s.sctx.activeFds.length < maxConnections := hunclean
        rw [SocketContext.watch, setSlot_activeFds, if_neg hroom]
      have hstores : (s.sctx.setSlot nodeId (some fd)).Stores fd := by
        rw [Stores, h.sized.slots_setSlot]
        exact List.mem_set (h.sized.place_lt nodeId) _
      rw [SocketEvent.apply, Sockets.connectToPeer] at hcons
      obtain ⟨-, hcount⟩ := hcons.stored fd (by dsimp only [opened]; rw [hfull]; exact hstores)
      dsimp only [opened] at hcount
      rw [hfull, setSlot_activeFds] at hcount
      have hmem : fd ∈ s.sctx.activeFds := List.count_pos_iff.mp (by omega)
      exact hnew (h.active fd hmem)
  | received fd src =>
      rw [SocketEvent.apply] at hcons
      rcases s.register_eq fd src with ⟨oldFd, hslot, hne, heq⟩ | ⟨hsame, -⟩
      · rw [heq] at hcons
        refine not_consistent_of_not_sole h.sized hslot ?_ ?_ hcons
        · intro hsole
          refine hunclean fun x hx _ => ?_
          rw [hslot] at hx
          rwa [← Option.some.inj hx]
        · exact fun hsome => hne (Option.some.inj hsome).symm
      · exact hunclean fun x hx hne => absurd (hsame x hx) hne
  | readFailed fd => exact hunclean trivial
  | sendFailed dst =>
      rw [SocketEvent.apply, errClose] at hcons
      split at hcons
      · rename_i hnone
        exact hunclean fun x hx => by rw [hnone] at hx; exact absurd hx (by simp)
      · rename_i fd hslot
        refine not_consistent_of_not_sole h.sized hslot ?_ (by simp) hcons
        intro hsole
        refine hunclean fun x hx => ?_
        rw [hslot] at hx
        rwa [← Option.some.inj hx]

/-- `P` of every event, at the state it finds. -/
def EveryEvent (P : Sockets → SocketEvent → Prop) : List SocketEvent → Sockets → Prop
  | [], _ => True
  | e :: es, s => P s e ∧ EveryEvent P es (e.apply s)

theorem Kept.run_iff (h : s.Kept) {events : List SocketEvent}
    (hp : EveryEvent (fun s e => e.Possible s) events s) :
    EveryEvent (fun s e => (e.apply s).Consistent) events s ↔
      EveryEvent (fun s e => e.Clean s) events s := by
  induction events generalizing s with
  | nil => exact Iff.rfl
  | cons e es ih =>
      obtain ⟨hpossible, hrest⟩ := hp
      constructor
      · rintro ⟨hcons, htail⟩
        have hclean := h.clean_of_consistent hpossible hcons
        exact ⟨hclean, (ih (h.apply hpossible hclean) hrest).mp htail⟩
      · rintro ⟨hclean, htail⟩
        have hkept := h.apply hpossible hclean
        exact ⟨hkept.consistent, (ih hkept hrest).mpr htail⟩

/-- The tables are consistent in every state of a run just if every step of it is clean. -/
theorem tables_consistent {numNodes : ℕ} {openFds : List ℕ} {events : List SocketEvent}
    (hp : EveryEvent (fun s e => e.Possible s) events (start numNodes openFds)) :
    (start numNodes openFds).Consistent ∧
      (EveryEvent (fun s e => (e.apply s).Consistent) events (start numNodes openFds) ↔
        EveryEvent (fun s e => e.Clean s) events (start numNodes openFds)) :=
  ⟨(kept_start numNodes openFds).consistent, (kept_start numNodes openFds).run_iff hp⟩

/-- Packets of two nodes come in over one connection, which then fails a send. -/
def sharedConnection : List SocketEvent := [.accepted 7, .received 7 1, .received 7 2, .sendFailed 1]

/-- Descriptor 7 is closed and still in the slot of node 2. -/
theorem tables_inconsistent :
    EveryEvent (fun s e => e.Possible s) sharedConnection (start 3 [3]) ∧
      ¬EveryEvent (fun s e => (e.apply s).Consistent) sharedConnection (start 3 [3]) := by
  have hpossible : EveryEvent (fun s e => e.Possible s) sharedConnection (start 3 [3]) := by
    unfold sharedConnection
    simp only [EveryEvent]
    decide +kernel
  refine ⟨hpossible, ?_⟩
  rintro ⟨-, -, -, hcons, -⟩
  obtain ⟨hopen, -⟩ := hcons.stored 7 (by decide +kernel)
  exact absurd hopen (by decide +kernel)

/-- A node that takes the place of its first connection by a second one. -/
theorem tables_consistent_replaced :
    EveryEvent (fun s e => (e.apply s).Consistent)
      [.accepted 7, .received 7 1, .accepted 8, .received 8 1] (start 3 [3]) := by
  have hpossible : EveryEvent (fun s e => e.Possible s)
      [.accepted 7, .received 7 1, .accepted 8, .received 8 1] (start 3 [3]) := by
    simp only [EveryEvent]
    decide +kernel
  refine (tables_consistent hpossible).2.mpr ?_
  simp only [EveryEvent]
  decide +kernel

end Sockets

end GeoRaft
