import GeoRaft.Persist.Log

/-!
The term and the vote in one file: `persist-unix/persistent-fields.c`.

The file is two words, one for each field. A field is set by writing over its word, so a
process that is stopped leaves the two fields from before that call or from after it, and
never the one of the two without the other.
-/

namespace GeoRaft

open Word Octets Files

inductive StateFile
  | state
  deriving DecidableEq, Repr

/-- `pf_context_t` is a descriptor and nothing else. -/
abbrev FieldsFile := Sys StateFile Unit

/-- The value of the enumerator, by which the source finds the word. -/
def PersistentField.number : PersistentField → ℕ
  | .currentTerm => 0
  | .votedFor => 1

namespace FieldsFile

def pfGet (f : PersistentField) (s : FieldsFile) : ℤ × FieldsFile :=
  let seek := s.lseek .state (f.number * 4)
  if seek.1 = -1 then (-1, seek.2)
  else
    let val := seek.2.read .state 4
    if val.1.length ≠ 4 then (-1, val.2) else (i32 (ofHostWord val.1), val.2)

def pfSet (f : PersistentField) (v : ℕ) (s : FieldsFile) : ℤ × FieldsFile :=
  let seek := s.lseek .state (f.number * 4)
  if seek.1 = -1 then (-1, seek.2)
  else
    let sent := seek.2.write .state (hostWord v)
    if sent.1 ≠ 4 then (-1, sent.2) else (0, sent.2.fsync)

/-- `persistent_fields_init`, where a file that is not there yet is the empty one. -/
def persistentFieldsInit (files : StateFile → List UInt8) : FieldsFile :=
  let s := Sys.boot () files
  if (files .state).length < 2 * 4 then
    (s.write .state (hostWord 0 ++ hostWord pfNoVote)).2.fsync
  else s

/-! ### The file that holds two fields -/

/-- What a file that has just been made stands for. -/
def initial : PersistentField → ℕ
  | .currentTerm => 0
  | .votedFor => pfNoVote

def packed (vals : PersistentField → ℕ) : List UInt8 :=
  hostWord (vals .currentTerm) ++ hostWord (vals .votedFor)

theorem length_packed (vals : PersistentField → ℕ) : (packed vals).length = 8 := rfl

theorem readAt_packed (vals : PersistentField → ℕ) (f : PersistentField) :
    readAt (f.number * 4) 4 (packed vals) = hostWord (vals f) := by
  cases f with
  | currentTerm => exact readAt_append [] (hostWord (vals .currentTerm)) _
  | votedFor =>
      have hread := readAt_append (hostWord (vals .currentTerm)) (hostWord (vals .votedFor)) []
      rwa [List.append_nil] at hread

theorem writeAt_packed (vals : PersistentField → ℕ) (f : PersistentField) (v : ℕ) :
    writeAt (f.number * 4) (hostWord v) (packed vals) = packed (Function.update vals f v) := by
  cases f with
  | currentTerm => exact writeAt_append [] (hostWord v) _
  | votedFor =>
      exact (writeAt_append (hostWord (vals .currentTerm)) (hostWord v) _).trans (List.append_nil _)

/-- These files hold the two values. -/
structure Holds (files : StateFile → List UInt8) (vals : PersistentField → ℕ) : Prop where
  state : files .state = packed vals ∨ files .state = [] ∧ vals = initial
  lt : ∀ f, vals f < 2 ^ 32

/-- So does this process. -/
structure Represents (s : FieldsFile) (vals : PersistentField → ℕ) : Prop where
  state : s.files .state = packed vals
  lt : ∀ f, vals f < 2 ^ 32
  reliable : s.faults = []

variable {s : FieldsFile} {vals : PersistentField → ℕ}

theorem Represents.holds (h : Represents s vals) : Holds s.files vals := ⟨.inl h.state, h.lt⟩

theorem lt_update (h : ∀ f, vals f < 2 ^ 32) (f : PersistentField) {v : ℕ} (hv : v < 2 ^ 32) :
    ∀ g, Function.update vals f v g < 2 ^ 32 := by
  intro g
  by_cases hg : g = f
  · rw [hg, Function.update_self]
    exact hv
  · rw [Function.update_of_ne hg]
    exact h g

/-! ### The calls -/

/-- The offset is where the word of the field is. -/
theorem lseek_field (h : s.faults = []) (f : PersistentField) :
    (s.lseek .state (f.number * 4)).1 ≠ -1 ∧
      (s.lseek .state (f.number * 4)).2.pos .state = f.number * 4 ∧
      (s.lseek .state (f.number * 4)).2.files = s.files ∧
      (s.lseek .state (f.number * 4)).2.past = s.past ++ [s.files] ∧
      (s.lseek .state (f.number * 4)).2.faults = [] := by
  rw [Sys.lseek_done (Sys.fails_of_reliable h 0)]
  refine ⟨?_, Function.update_self StateFile.state _ s.pos, rfl, rfl, ?_⟩
  · show ((f.number * 4 : ℕ) : ℤ) ≠ -1
    omega
  · show s.faults.drop 1 = []
    rw [h, List.drop_nil]

theorem pfGet_eq (h : Represents s vals) (f : PersistentField) : (s.pfGet f).1 = i32 (vals f) := by
  obtain ⟨hok, hpos, hfiles, -, hfaults⟩ := lseek_field h.reliable f
  rw [pfGet]
  dsimp only
  rw [if_neg hok]
  generalize (s.lseek .state (f.number * 4)).2 = s₁ at hpos hfiles hfaults ⊢
  have hread : (s₁.read .state 4).1 = hostWord (vals f) := by
    rw [Sys.read_done (Sys.fails_of_reliable hfaults 0), hpos, hfiles, h.state, readAt_packed]
  rw [hread, if_neg (by rw [length_hostWord]; exact not_not.mpr rfl), ofHostWord_hostWord (h.lt f)]

/-- Setting a field sets that field alone, and the files have it after a single call. -/
theorem pfSet_represents (h : Represents s vals) (f : PersistentField) {v : ℕ} (hv : v < 2 ^ 32) :
    Represents (s.pfSet f v).2 (Function.update vals f v) ∧
      ∃ calls, (s.pfSet f v).2.past = s.past ++ calls ∧
        ∀ files ∈ calls, Holds files vals ∨ Holds files (Function.update vals f v) := by
  obtain ⟨hok, hpos, hfiles, hpast, hfaults⟩ := lseek_field h.reliable f
  have hlt := lt_update h.lt f hv
  have hword : writeAt (f.number * 4) (hostWord v) (s.files .state) =
      packed (Function.update vals f v) := by rw [h.state, writeAt_packed]
  have hafter : Holds (Function.update s.files .state (packed (Function.update vals f v)))
      (Function.update vals f v) := ⟨.inl (Function.update_self ..), hlt⟩
  rw [pfSet]
  dsimp only
  rw [if_neg hok]
  generalize (s.lseek .state (f.number * 4)).2 = s₁ at hpos hfiles hpast hfaults ⊢
  rw [Sys.write_done (Sys.fails_of_reliable hfaults 0), hpos, hfiles, hword]
  dsimp only
  rw [length_hostWord, if_neg (by decide)]
  generalize hnew : Function.update s.files .state (packed (Function.update vals f v)) = new at hafter ⊢
  refine ⟨⟨?_, hlt, ?_⟩, [s.files, new, new], ?_, ?_⟩
  · rw [← hnew]
    exact Function.update_self StateFile.state _ s.files
  · show s₁.faults.drop 1 = []
    rw [hfaults, List.drop_nil]
  · show (s₁.past ++ [new]) ++ [new] = s.past ++ [s.files, new, new]
    rw [hpast, List.append_assoc, List.append_assoc]
    rfl
  · intro files hf
    rcases List.mem_cons.mp hf with rfl | hf
    · exact .inl h.holds
    · rw [List.eq_of_mem_replicate (n := 2) hf]
      exact .inr hafter

/-- Every process that is started finds the two values that the file holds. -/
theorem persistentFieldsInit_represents {files : StateFile → List UInt8} (h : Holds files vals) :
    Represents (persistentFieldsInit files) vals ∧
      ∀ f ∈ (persistentFieldsInit files).past, Holds f vals := by
  rw [persistentFieldsInit]
  rcases h.state with hstate | ⟨hstate, hvals⟩
  · rw [if_neg (by rw [hstate, length_packed]; decide)]
    exact ⟨⟨hstate, h.lt, rfl⟩, fun f hf => by cases hf⟩
  · -- the file has just been made
    have hmade : Holds (Function.update files .state (packed initial)) vals :=
      ⟨.inl ((Function.update_self ..).trans (by rw [hvals])), h.lt⟩
    have hword : writeAt 0 (hostWord 0 ++ hostWord pfNoVote) (files .state) = packed initial := by
      rw [hstate]
      rfl
    rw [if_pos (by rw [hstate]; decide), Sys.write_done (Sys.fails_of_reliable rfl 0)]
    dsimp only [Sys.done, Sys.fsync, Sys.boot]
    rw [hword]
    refine ⟨⟨?_, h.lt, rfl⟩, fun f hf => ?_⟩
    · rw [hvals]
      exact Function.update_self StateFile.state _ files
    · rw [List.eq_of_mem_replicate (n := 2) hf]
      exact hmade

end FieldsFile

end GeoRaft
