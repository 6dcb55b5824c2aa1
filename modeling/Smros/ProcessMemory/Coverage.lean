import Smros.ProcessMemory.Cow

/-!
# Which ranges are covered

The check before a user access extends a cursor over the ranges in any order, and the check
before a call on mappings walks the sorted list once.  Both are exact byte by byte, over the
ranges that end below the last address.
-/

namespace Smros.ProcessMemory
open List
open PageTable (pageSize)
open LinuxProcessMemory (rangeIsMapped rangeAccessible chunksAccessible addressIsCow)

/-- The byte lies in a range that grants the access. -/
def Granted (ranges : List LinuxMappingAccessRange) (write : Bool) (byte : Nat) : Prop :=
  ∃ range ∈ ranges, linuxMappingAllows range.prot write = true ∧
    range.addr + range.len < 2 ^ 64 ∧ range.addr ≤ byte ∧ byte < range.addr + range.len

variable {ranges : List LinuxMappingAccessRange} {write : Bool}
  {cursor rangeEnd rounds left right address len : Nat}
/-- One round reaches the furthest end of the ranges that start in time. -/
theorem accessCoveredUntil_spec (ranges write cursor) :
  (∀ range ∈ ranges, linuxMappingAllows range.prot write = true →
    range.addr + range.len < 2 ^ 64 → range.addr ≤ cursor →
    range.addr + range.len ≤ accessCoveredUntil ranges write cursor) ∧
  (accessCoveredUntil ranges write cursor = cursor ∨
    cursor < accessCoveredUntil ranges write cursor ∧
      ∃ range ∈ ranges, linuxMappingAllows range.prot write = true ∧
        range.addr + range.len < 2 ^ 64 ∧ range.addr ≤ cursor ∧
        accessCoveredUntil ranges write cursor = range.addr + range.len) := by
  unfold accessCoveredUntil
  induction ranges using reverseRecOn with
  | nil => exact ⟨nofun, .inl rfl⟩
  | append_singleton earlier last ih =>
    rw [foldl_append, foldl_cons, foldl_nil]
    generalize foldl _ cursor earlier = coveredUntil at ih ⊢
    obtain ⟨furthest, reached⟩ := ih
    split
    · rename_i taken
      simp only [Bool.and_eq_true, decide_eq_true_eq] at taken
      obtain ⟨⟨⟨allows, below⟩, starts⟩, further⟩ := taken
      refine ⟨fun range member granted bound early => ?_, .inr ⟨?_, last, by simp, allows, below,
        starts, rfl⟩⟩
      · rcases mem_append.mp member with old | new
        · exact (furthest range old granted bound early).trans further.le
        · rw [mem_singleton.mp new]
      · rcases reached with same | ⟨past, -⟩
        · rwa [same] at further
        · exact past.trans further
    · rename_i passed
      simp only [Bool.and_eq_true, decide_eq_true_eq, not_and, not_lt] at passed
      refine ⟨fun range member granted bound early => ?_, reached.imp_right ?_⟩
      · rcases mem_append.mp member with old | new
        · exact furthest range old granted bound early
        · rw [mem_singleton.mp new] at granted bound early ⊢
          exact passed ⟨⟨granted, bound⟩, early⟩
      · rintro ⟨past, range, member, spec⟩
        exact ⟨past, range, mem_append_left _ member, spec⟩

/-- The ranges that a cursor has not passed yet; every round passes one more. -/
def ahead (ranges : List LinuxMappingAccessRange) (cursor : Nat) : List LinuxMappingAccessRange :=
  ranges.filter fun range => cursor < range.addr + range.len

theorem length_ahead_lt {range} (member : range ∈ ranges) (past : cursor < range.addr + range.len) :
  (ahead ranges (range.addr + range.len)).length < (ahead ranges cursor).length := by
  have twice : ahead ranges (range.addr + range.len) =
    (ahead ranges cursor).filter fun other => range.addr + range.len < other.addr + other.len := by
    unfold ahead
    rw [filter_filter]
    refine filter_congr fun other _ => ?_
    rw [Bool.eq_iff_iff, Bool.and_eq_true, decide_eq_true_eq, decide_eq_true_eq]
    exact ⟨fun further => ⟨further, past.trans further⟩, And.left⟩
  rw [twice, length_filter_lt_length_iff_exists]
  exact ⟨range, mem_filter.mpr ⟨member, by simpa using past⟩, by simp⟩

/-- With a round for each range ahead, the loop decides whether every byte is granted. -/
theorem accessRangeCovered_iff (enough : (ahead ranges cursor).length < rounds) :
  accessRangeCovered ranges rangeEnd write rounds cursor = true ↔
    ∀ byte, cursor ≤ byte → byte < rangeEnd → Granted ranges write byte := by
  induction rounds generalizing cursor with
  | zero => exact absurd enough (Nat.not_lt_zero _)
  | succ rounds ih =>
    obtain ⟨furthest, reached⟩ := accessCoveredUntil_spec ranges write cursor
    unfold accessRangeCovered
    split
    · exact iff_of_true rfl fun byte low high => absurd (low.trans_lt high) (by omega)
    dsimp only
    rcases reached with stuck | ⟨past, range, member, allows, below, starts, stop⟩
    · -- no range holds the byte under the cursor
      rw [if_pos stuck]
      refine iff_of_false nofun fun granted => ?_
      obtain ⟨range, member, allows, below, starts, inside⟩ := granted cursor le_rfl (by omega)
      have bound := furthest range member allows below starts
      omega
    · rw [if_neg (by omega), stop]
      rw [stop] at past
      have inside : ∀ byte, cursor ≤ byte → byte < range.addr + range.len →
        Granted ranges write byte := fun byte low high =>
        ⟨range, member, allows, below, starts.trans low, high⟩
      have fewer := length_ahead_lt member past
      by_cases whole : rangeEnd ≤ range.addr + range.len
      · obtain ⟨left, rfl⟩ := Nat.exists_eq_add_of_lt (Nat.zero_lt_of_lt fewer |>.trans_le
          (Nat.le_of_lt_succ enough))
        rw [min_eq_right whole, accessRangeCovered, if_pos le_rfl]
        exact iff_of_true rfl fun byte low high => inside byte low (high.trans_le whole)
      · rw [min_eq_left (by omega), ih (by omega)]
        refine ⟨fun later byte low high => ?_, fun all byte low => all byte (past.le.trans low)⟩
        by_cases first : byte < range.addr + range.len
        · exact inside byte low first
        · exact later byte (by omega) high

theorem length_ahead_lt_succ (ranges cursor) : (ahead ranges cursor).length < ranges.length + 1 :=
  Nat.lt_succ_of_le (length_filter_le ..)

theorem checkedAdd_of_lt (fits : left + right < 2 ^ 64) :
  checkedAdd left right = some (left + right) :=
  if_pos fits

theorem checkedAdd_of_le (overflows : ¬ left + right < 2 ^ 64) : checkedAdd left right = none :=
  if_neg overflows

theorem accessCovered_iff :
  linuxMappingAccessRangeCovered ranges address len write = true ↔
    0 < len ∧ address + len < 2 ^ 64 ∧
      ∀ byte, address ≤ byte → byte < address + len → Granted ranges write byte := by
  unfold linuxMappingAccessRangeCovered
  by_cases fits : address + len < 2 ^ 64
  · rw [checkedAdd_of_lt fits]
    dsimp only
    rw [Bool.and_eq_true, accessRangeCovered_iff (length_ahead_lt_succ ..), bne_iff_ne,
      ← Nat.pos_iff_ne_zero]
    exact and_congr_right fun _ => (and_iff_right fits).symm
  · rw [checkedAdd_of_le fits]
    exact iff_of_false nofun fun covered => fits covered.2.1

/-! ## The walk over sorted mappings -/

variable (mappings : List LinuxProcessMapping)
/-- The mappings come in order and share no byte. -/
def Ordered : Prop := mappings.Pairwise fun first second => first.stop ≤ second.addr

/-- The ranges of the mappings, as far as `range_is_mapped` looks at them. -/
def plainRanges : List LinuxMappingAccessRange :=
  mappings.map fun mapping => ⟨mapping.addr, mapping.len, linuxBrkProt⟩

variable {mappings} {byte : Nat}
theorem granted_plainRanges {write} :
  Granted (plainRanges mappings) write byte ↔ ∃ mapping ∈ mappings,
    mapping.stop < 2 ^ 64 ∧ mapping.addr ≤ byte ∧ byte < mapping.stop := by
  have allows : linuxMappingAllows linuxBrkProt write = true := by cases write <;> rfl
  simp [Granted, plainRanges, allows, LinuxProcessMapping.stop]

theorem coveredFrom_iff (ordered : Ordered mappings) (room : cursor < rangeEnd) :
  coveredFrom rangeEnd cursor mappings = true ↔
    ∀ byte, cursor ≤ byte → byte < rangeEnd → ∃ mapping ∈ mappings,
      mapping.stop < 2 ^ 64 ∧ mapping.addr ≤ byte ∧ byte < mapping.stop := by
  induction mappings generalizing cursor with
  | nil => simpa [coveredFrom] using ⟨cursor, le_rfl, room⟩
  | cons mapping rest ih =>
    obtain ⟨behind, ordered⟩ := pairwise_cons.mp ordered
    unfold coveredFrom
    simp only [exists_mem_cons_iff]
    have short : mapping.addr ≤ mapping.stop := Nat.le_add_right ..
    split
    · -- the end of the mapping overflows
      rw [ih ordered room]
      refine forall_congr' fun byte => forall₂_congr fun _ _ => (or_iff_right ?_).symm
      omega
    split
    · refine iff_of_false nofun fun covered => ?_
      rcases covered cursor le_rfl room with ⟨-, low, -⟩ | ⟨other, member, -, low, -⟩
      · omega
      · have later := behind other member
        omega
    split
    · split
      · exact iff_of_true rfl fun byte low high => .inl (by omega)
      rw [min_eq_left (by omega), ih ordered (by omega)]
      refine ⟨fun later byte low high => ?_, fun all byte low high => ?_⟩
      · by_cases first : byte < mapping.stop
        · exact .inl (by omega)
        · exact .inr (later byte (by omega) high)
      · exact (all byte (by omega) high).resolve_left (by omega)
    · rw [ih ordered room]
      refine forall_congr' fun byte => forall₂_congr fun _ _ => (or_iff_right ?_).symm
      omega

/-! ## The pages of a range -/

variable {memory : LinuxProcessMemory} {other offset : Nat}
/-- The access succeeds, or copies the page first. -/
def Reachable (memory : LinuxProcessMemory) (write : Bool) (byte : Nat) : Prop :=
  (translateUser memory byte write).isSome = true ∨
    write = true ∧ memory.addressIsCow byte = true

/-- The bytes of a page are reached together. -/
theorem reachable_of_page (page : byte / pageSize = other / pageSize) :
    Reachable memory write byte ↔ Reachable memory write other := by
  have window : (PageTable.userBase ≤ byte ∧ byte < PageTable.userLimit) ↔
      (PageTable.userBase ≤ other ∧ other < PageTable.userLimit) := by
    simp only [PageTable.userBase, PageTable.userLimit, pageSize] at page ⊢
    omega
  have translates : (translateUser memory byte write).isSome =
      (translateUser memory other write).isSome := by
    unfold translateUser PageTable.Reference.translateUser
    simp only [Option.isSome_map, window, page]
    split
    · rfl
    · cases memory.addressSpace.pages (other / pageSize) with
      | none => rfl
      | some found => dsimp only; split <;> rfl
  unfold Reachable addressIsCow pageBase
  rw [translates, page]

/-- The loop looks at one byte of every page, and so decides whether all are reached. -/
theorem chunksAccessible_iff (fits : address + len < 2 ^ 64) (enough : len ≤ offset + rounds) :
    memory.chunksAccessible address len write rounds offset = true ↔
      ∀ index, offset ≤ index → index < len → Reachable memory write (address + index) := by
  induction rounds generalizing offset with
  | zero =>
    rw [chunksAccessible, decide_eq_true_eq]
    exact iff_of_true (by omega) fun index low high => absurd high (by omega)
  | succ rounds ih =>
    rw [chunksAccessible]
    split
    · rename_i inside
      rw [checkedAdd_of_lt (by omega)]
      dsimp only
      rw [linuxUserCopyChunk, if_neg (not_or.mpr ⟨by omega, by decide⟩)]
      dsimp only
      have small : (address + offset) % pageSize < pageSize := Nat.mod_lt _ (by decide)
      generalize hchunk : min (len - offset) (pageSize - (address + offset) % pageSize) = chunk
      -- the indices of the chunk are in the page of the first one
      have page : ∀ index, offset ≤ index → index < offset + chunk →
          (address + index) / pageSize = (address + offset) / pageSize := by
        intro index low high
        simp only [pageSize] at hchunk small ⊢
        omega
      split
      · rename_i refused
        refine iff_of_false nofun fun all => ?_
        have first := all offset le_rfl inside
        simp only [Bool.and_eq_true, Option.isNone_iff_eq_none, Bool.not_eq_true',
          Bool.and_eq_false_iff] at refused
        rcases first with translates | ⟨writes, cow⟩
        · simp [refused.1] at translates
        · rcases refused.2 with reads | owned
          · rw [writes] at reads; cases reads
          · rw [cow] at owned; cases owned
      · rename_i accepted
        have first : Reachable memory write (address + offset) := by
          unfold Reachable
          cases htranslate : translateUser memory (address + offset) write with
          | some target => exact .inl rfl
          | none =>
            rw [htranslate] at accepted
            exact .inr (by simpa using accepted)
        rw [ih (by omega)]
        refine ⟨fun later index low high => ?_, fun all index low high => all index (by omega) high⟩
        by_cases near : index < offset + chunk
        · exact (reachable_of_page (page index low near)).mpr first
        · exact later index (by omega) high
    · exact iff_of_true rfl fun index low high => absurd high (by omega)

theorem rangeAccessible_iff : memory.rangeAccessible address len write = true ↔
    memory.brk.pages.length * pageSize < 2 ^ 64 ∧
    linuxMappingAccessRangeCovered memory.accessRanges address len write = true ∧
    ∀ offset < len, Reachable memory write (address + offset) := by
  unfold rangeAccessible checkedMul
  rw [Bool.and_eq_true, Bool.and_eq_true, and_assoc]
  refine and_congr (by split <;> simp_all) (and_congr_right fun covered => ?_)
  rw [chunksAccessible_iff (accessCovered_iff.mp covered).2.1 (Nat.le_add_left ..)]
  exact ⟨fun all offset => all offset (Nat.zero_le _), fun all offset _ => all offset⟩

/-- A memory with one mapping of a page, which the tables do not hold. -/
def unbacked (prot : Prot) : LinuxProcessMemory where
  pid := 1
  privatePageTrackingEnabled := false
  privatePageHints := []
  addressSpace := .new
  mappings := [⟨linuxMmapBase, pageSize, prot, 0#64, [], .anonymous⟩]
  sharedAttachments := []
  nextAddr := linuxMmapBase
  brk := .new

end Smros.ProcessMemory
