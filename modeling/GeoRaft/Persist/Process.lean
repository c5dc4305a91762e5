import GeoRaft.Persist.Store

/-!
A node on its files.

A process starts with `log_init` and `persistent_fields_init`, handles packets and timeouts,
and can be ended between any two of its system calls, those of its start included. Then the
next one starts on the files that are there. Whatever is sent in such a history is sent in the
life of a node on a `Disk` whose processes end between two effects. As there, a response that
makes a leader write outside its tables is not counted among the packets.
-/

namespace GeoRaft

open Word Files

/-- A process that runs, or the files that the last one left. -/
inductive Machine
  | down (files : NodeFiles)
  | up (node : Node FileStore)

inductive MachineMove
  | boot
  /-- The process ends after `j` of the system calls that it starts with. -/
  | bootCut (j : ℕ)
  | run (input : Input)
  /-- The process ends when `k` effects of the handler are carried out and `j` of the
  system calls of the next. -/
  | crash (input : Input) (k j : ℕ)

namespace Machine

/-- The files when a script has been carried out that far. -/
def cutFiles (s : FileStore) (es : List (Effect FileStore)) (k j : ℕ) : NodeFiles :=
  match es[k]? with
  | some (.store s' _) => (storeAfter s (es.take k)).interrupted s' j
  | _ => (storeAfter s (es.take k)).files

def move (config : Config) : Machine → MachineMove → Machine
  | down files, .boot => up (raftCreate config (.boot files))
  | down files, .bootCut j => down (files.bootCut j)
  | up node, .run input =>
    let node := node.turn input
    if node.script.any Effect.isExit then down node.store.files else up node.settled
  | up node, .crash input k j => down (cutFiles node.store (node.turn input).script k j)
  | m, _ => m

/-- What a move sends. -/
def packets : Machine → MachineMove → List Pkt
  | up node, .run input => (node.turn input).script.filterMap Effect.packet
  | up node, .crash input k _ => ((node.turn input).script.take k).filterMap Effect.packet
  | _, _ => []

/-- What a process gets is what unpacking returns, and its log has room for it. -/
def Accepts : Machine → MachineMove → Prop
  | up node, .run input | up node, .crash input _ _ => node.Carries input
  | _, _ => True

/-- The histories of a machine, from no files at all, and what was sent. -/
inductive Runs (config : Config) : Machine → List Pkt → Prop
  | start : Runs config (down ⟨fun _ => [], fun _ => []⟩) []
  | move {m : Machine} {sent : List Pkt} (h : Runs config m sent) (mv : MachineMove)
      (hmv : m.Accepts mv) : Runs config (m.move config mv) (sent ++ m.packets mv)

end Machine

/-- The lives of a node on a disk, and what was sent. -/
inductive Talks (config : Config) : Life → List Pkt → Prop
  | start : Talks config (.start config) []
  | move {l : Life} {sent : List Pkt} (h : Talks config l sent) {mv : Move}
      (hmv : mv.input.WellFormed) :
      Talks config (l.move config mv) (sent ++ (l.effects mv).filterMap Effect.packet)

namespace Machine

variable {config : Config} {m : Machine} {l : Life} {sent : List Pkt} {n : Node FileStore}
  {node : Node Disk}

/-- The machine is where the life is: its files stand for the disk and, while it runs, its
process is the node. -/
def Shows (config : Config) (l : Life) : Machine → Prop
  | down files => files.Holds l.node.store ∧ l.node = raftCreate config l.node.store
  | up node => Node.Alike FileStore.onDisk (node.store, l.node.store) node l.node

theorem alike_raftCreate {s : FileStore} {d : Disk} (h : s.Represents d)
    (hid : config.id < 2 ^ 32) : Node.Alike FileStore.onDisk (s, d) (raftCreate config s)
      (raftCreate config d) where
  memory := rfl
  store := h
  script := .nil _
  commit := by
    show (-1 : ℤ) < 2 ^ 31
    decide
  id := hid

theorem alike_settled {start : FileStore × Disk} (h : Node.Alike FileStore.onDisk start n node) :
    Node.Alike FileStore.onDisk (n.store, node.store) n.settled { node with script := [] } where
  memory := h.memory
  store := h.store
  script := .nil _
  commit := h.commit
  id := h.id

/-- Where a script is cut on files is where it can be cut on the disk. -/
theorem cutFiles_holds {p q : FileStore × Disk} {es : List (Effect FileStore)}
    {fs : List (Effect Disk)} (h : Matching FileStore.onDisk p es fs q)
    (hp : p.1.Represents p.2) (k j : ℕ) :
    (cutFiles p.1 es k j).Holds (storeAfter p.2 (fs.take k)) ∨
      ∃ d event, fs[k]? = some (.store d event) ∧ (cutFiles p.1 es k j).Holds d := by
  obtain ⟨r, htake⟩ := h.take k
  have hr := htake.same hp
  rw [htake.storeAfter] at hr
  unfold cutFiles
  split
  · rename_i s' event hk
    obtain ⟨d, hd, -, hcut⟩ := h.next hk
    exact (hcut j).imp_right fun hold => ⟨d, event, hd, hold⟩
  · exact .inl hr.holds

theorem wellFormed_of_carries {input : Input} (h : n.Carries input) : input.WellFormed := by
  cases input with
  | timeout env => trivial
  | packet env pkt =>
      obtain ⟨hfits, -⟩ := h
      show pkt.rpc.term < 2 ^ 32 ∧ pkt.rpc.candidateId < 2 ^ 32
      generalize pkt.rpc = rpc at hfits ⊢
      have hzero : 0 < 2 ^ 32 := by decide
      cases rpc with
      | appendEntriesReq req => exact ⟨hfits.1, hzero⟩
      | appendEntriesRes res => exact ⟨hfits.1, hzero⟩
      | requestVoteReq req => exact ⟨hfits.1, hfits.2.1⟩
      | requestVoteRes res => exact ⟨hfits.1, hzero⟩
      | procReq req => exact ⟨hzero, hzero⟩
      | procRes res => exact ⟨hzero, hzero⟩

/-- One turn on the files and on the disk. -/
theorem alike_turn {start : FileStore × Disk} (h : Node.Alike FileStore.onDisk start n node)
    {input : Input} (hin : n.Carries input) :
    Node.Alike FileStore.onDisk start (n.turn input) (node.handle input) := by
  rw [← Node.turn_eq_handle]
  refine h.turn FileStore.simulates_disk ?_
  cases input with
  | timeout env => trivial
  | packet env pkt =>
      refine ⟨hin.1, fun req hreq => ?_⟩
      rw [← h.logLength FileStore.simulates_disk]
      exact hin.2 req hreq

/-- The life moves with the machine, or the machine only starts. -/
theorem Shows.move (h : m.Shows config l) (hid : config.id < 2 ^ 32) {mv : MachineMove}
    (hmv : m.Accepts mv) :
    (m.packets mv = [] ∧ (m.move config mv).Shows config l) ∨
      ∃ mv' : Move, mv'.input.WellFormed ∧
        m.packets mv = (l.effects mv').filterMap Effect.packet ∧
        (m.move config mv).Shows config (l.move config mv') := by
  cases m with
  | down files =>
      obtain ⟨hold, hnew⟩ := h
      refine .inl ⟨rfl, ?_⟩
      cases mv with
      | boot =>
          have hboot := alike_raftCreate (FileStore.boot_represents hold) hid
          rw [← hnew] at hboot
          exact hboot
      | bootCut j => exact ⟨FileStore.bootCut_holds hold j, hnew⟩
      | run input => exact ⟨hold, hnew⟩
      | crash input k j => exact ⟨hold, hnew⟩
  | up n =>
      cases mv with
      | boot => exact .inl ⟨rfl, h⟩
      | bootCut j => exact .inl ⟨rfl, h⟩
      | run input =>
          have hturn := alike_turn h hmv
          refine .inr ⟨.run input, wellFormed_of_carries hmv, hturn.script.packets, ?_⟩
          unfold Machine.move Life.move
          dsimp only
          by_cases hexit : Effect.exit ∈ (l.node.handle input).script
          · rw [if_pos (hturn.script.exit_mem_iff.mpr hexit), if_pos hexit]
            exact ⟨hturn.store.holds, rfl⟩
          · rw [if_neg (mt hturn.script.exit_mem_iff.mp hexit), if_neg hexit]
            have hsettled := alike_settled hturn
            exact hsettled
      | crash input k j =>
          have hturn := alike_turn h hmv
          obtain ⟨r, htake⟩ := hturn.script.take k
          have hwell := wellFormed_of_carries hmv
          rcases cutFiles_holds hturn.script h.store k j with hold | ⟨d, event, hd, hold⟩
          · exact .inr ⟨.crash input k, hwell, htake.packets, hold, rfl⟩
          · -- the call that was cut has taken effect
            have hnext : (l.node.handle input).script.take (k + 1) =
                (l.node.handle input).script.take k ++ [.store d event] := by
              rw [List.take_add_one, hd]
              rfl
            have hlast : storeAfter l.node.store ((l.node.handle input).script.take (k + 1)) = d := by
              rw [hnext, storeAfter_append]
              rfl
            refine .inr ⟨.crash input (k + 1), hwell, ?_, ?_, rfl⟩
            · refine htake.packets.trans ?_
              show _ = ((l.node.handle input).script.take (k + 1)).filterMap Effect.packet
              rw [hnext, List.filterMap_append]
              exact (List.append_nil _).symm
            · show NodeFiles.Holds _ (storeAfter l.node.store
                ((l.node.handle input).script.take (k + 1)))
              rw [hlast]
              exact hold

/-- Whatever a node does on its files, a node on a disk does, and the files stand for that
disk at every moment. -/
theorem machine_refines_disk (hid : config.id < 2 ^ 32) (h : Runs config m sent) :
    ∃ l, Talks config l sent ∧ m.Shows config l := by
  induction h with
  | start => exact ⟨.start config, .start, FileStore.none_holds, rfl⟩
  | move h mv hmv ih =>
      obtain ⟨l, htalks, hshows⟩ := ih
      rcases hshows.move hid hmv with ⟨hnone, hnext⟩ | ⟨mv', hwell, hsent, hnext⟩
      · rw [hnone, List.append_nil]
        exact ⟨l, htalks, hnext⟩
      · rw [hsent]
        exact ⟨_, htalks.move hwell, hnext⟩

theorem accepts_timeout (m : Machine) (env : Env) (k j : ℕ) :
    m.Accepts (.crash (.timeout env) k j) := by
  cases m <;> trivial

/-- A candidate asks for votes, and its process ends while it starts the next election: the
term of that one is on disk and the vote is not. -/
theorem machine_refines_disk_election : ∃ m sent, Runs (Config.plain 3 0) m sent ∧
    sent.length = 2 ∧ ∃ l, Talks (Config.plain 3 0) l sent ∧ m.Shows (Config.plain 3 0) l := by
  have hboot := (@Runs.start (Config.plain 3 0)).move .boot trivial
  have helection := hboot.move (.run (.timeout ⟨0, 0⟩)) trivial
  have hcut := helection.move (.crash (.timeout ⟨1000, 0⟩) 0 2) (accepts_timeout _ _ _ _)
  exact ⟨_, _, hcut, by decide +kernel, machine_refines_disk (by decide) hcut⟩

end Machine

end GeoRaft
