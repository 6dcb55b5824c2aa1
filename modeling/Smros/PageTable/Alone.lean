import Smros.PageTable.Undo

/-!
# A space of its own as a finite map

The calls on a space that shares no table change its pages as a finite map: a call that
succeeds changes the pages it names, and a call that fails changes none.  The entries for
supervisor addresses stay as they are.
-/

namespace Smros.PageTable
open Lib Lib.Program
variable {old roles : Nat → Option Role} {start core after : Core} {pages : PageMap} {vaddr : Nat}
  {backend : TableBackend}
namespace Core

/-! ## Walking and growing -/

/-- The frame allocator has this many free tables to offer. -/
structure Plenty (tables : Nat) (backend : TableBackend) : Prop where
  enough : tables ≤ backend.offers.length
  nodup : backend.offers.Nodup
  free : ∀ pfn ∈ backend.offers, backend.Free pfn

instance (tables : Nat) (backend : TableBackend) : Decidable (Plenty tables backend) :=
  decidable_of_iff (tables ≤ backend.offers.length ∧ backend.offers.Nodup ∧
      ∀ pfn ∈ backend.offers, backend.Free pfn)
    ⟨fun ⟨henough, hnodup, hfree⟩ => ⟨henough, hnodup, hfree⟩,
      fun hplenty => ⟨hplenty.enough, hplenty.nodup, hplenty.free⟩⟩

/-- At most this many of the offers are gone. -/
def Spends (tables : Nat) (before after : TableBackend) : Prop :=
  ∀ left, Plenty (left + tables) before → Plenty left after

variable {fewer tables first snd parent idx child : Nat} {before between : TableBackend}
theorem Plenty.mono (hle : fewer ≤ tables) (plenty : Plenty tables backend) :
  Plenty fewer backend :=
  { plenty with enough := hle.trans plenty.enough }

theorem Plenty.offerFree (plenty : Plenty (tables + 1) backend) : OfferFree backend := by
  have enough := plenty.enough
  cases offers : backend.offers with
  | nil =>
    rw [offers] at enough
    exact absurd enough (Nat.not_succ_le_zero tables)
  | cons offer rest => exact ⟨offer, rest, offers, plenty.free offer (offers ▸ List.mem_cons_self)⟩

theorem Spends.refl (tables backend) : Spends tables backend backend :=
  fun left plenty => plenty.mono (Nat.le_add_right left tables)

theorem Spends.trans {after} (hfirst : Spends first before between)
  (hsnd : Spends snd between after) : Spends (first + snd) before after := by
  intro left plenty
  refine hsnd left (hfirst (left + snd) ?_)
  rwa [Nat.add_assoc, Nat.add_comm snd first]

theorem Grown.spends (grown : Grown core after parent idx child) :
  Spends 1 core.backend after.backend := by
  intro left plenty
  have enough := plenty.enough
  have nodup := plenty.nodup
  rw [grown.offers] at enough nodup
  obtain ⟨hchild, rest⟩ := List.nodup_cons.mp nodup
  refine ⟨Nat.le_of_succ_le_succ enough, rest, fun pfn hpfn => ?_⟩
  have free := plenty.free pfn (grown.offers ▸ List.mem_cons_of_mem _ hpfn)
  have hne : pfn ≠ child := fun same => hchild (same ▸ hpfn)
  refine ⟨?_, grown.window ▸ free.2⟩
  rw [grown.references, indicator, if_neg hne]
  exact free.1

/-- Without sharing there is nothing to detach. -/
theorem ensurePrivate_run (placed : Placed roles core.space core.backend)
  (user : UserAddress vaddr) : ensurePrivateExistingPath vaddr core = .ok () core := by
  have ends : Ends (ensurePrivateExistingPath vaddr) core (fun _ next => next = core)
    (fun _ _ => False) := by
    unfold ensurePrivateExistingPath
    rw [tableIndices_user user.2, ends_orThrow_some, ends_get_bind,
      ends_readEntry_bind (placed.window placed.rootRole) (by decide : 0 < tableEntries)]
    rcases link_cases placed.rootLink with ⟨zero, -⟩ | ⟨hne, valid, level⟩
    · rw [if_pos zero, ends_pure]
    rw [if_neg hne, valid]
    have table := placed.levelOne_role level
    refine (ends_bind_of_ok (detachTable_run_private ?_)).mpr ?_
    · exact (placed.held _ _ table).le
    rw [ends_readEntry_bind (placed.window table) (slotOf_lt user.2)]
    rcases link_cases (placed.userLink level user.slot) with ⟨zero, -⟩ | ⟨hne, valid, leaf⟩
    · rw [if_pos zero, ends_pure]
    rw [if_neg hne, valid]
    have role := placed.leaf_role level (slotOf_lt user.2) leaf
    refine (ends_bind_of_ok (detachTable_run_private ?_)).mpr (ends_pure.mpr rfl)
    exact (placed.held _ _ role).le
  cases hrun : ensurePrivateExistingPath vaddr core with
  | ok value next => rw [ends.ok hrun]
  | error error next => exact (ends.error hrun).elim

variable {role next : Role}
/-- One level on the way to a page. -/
theorem ensureChild_since (since : Since old roles start core)
  (contents : Contents pages core.space core.backend) (hparent : roles parent = some role)
  (hchild : role.child idx = some next) (user : role.UserCell idx)
  (hidx : idx < tableEntries) :
  Ends (ensureChildTable parent idx) core (fun child after => ∃ grown, Since old grown start after ∧
    Contents pages after.space after.backend ∧
    (∀ {pfn place}, roles pfn = some place → grown pfn = some place) ∧
    grown child = some next ∧ pointer (after.backend.entries parent idx) = some child ∧
    (∀ {pfn pos found place}, roles pfn = some place → pointer (core.backend.entries pfn pos) =
      some found → pointer (after.backend.entries pfn pos) = some found) ∧
    Spends 1 core.backend after.backend)
    (fun _ after => Since old roles start after ∧ Contents pages after.space after.backend ∧
      ¬ Plenty 1 core.backend) := by
  have placed := since.placed
  have held : core.backend.references parent ≠ 0 := by
    rw [placed.held parent role hparent]
    decide
  have link := placed.links hparent hchild user
  rcases link_cases link with ⟨zero, -⟩ | ⟨-, -, hptr⟩
  · refine (ensureChild_ends_absent held hidx zero).mono ?_ ?_
    · intro child after hgrown
      refine ⟨_, since.grown hgrown hparent hchild user hidx zero,
        (contents.grown placed hparent hgrown hchild zero).of_root hgrown.root, ?_,
        Function.update_self .., ?_, ?_, hgrown.spends⟩
      · intro pfn place hpfn
        rwa [Function.update_of_ne (placed.child_ne hgrown hpfn)]
      · rw [hgrown.link, pointer_table hgrown.free.2.lt]
      · exact fun hpfn hfound => placed.pointer_grown hgrown zero hpfn hfound
    · rintro error after ⟨idle, short⟩
      have agree : AgreeOn roles core.backend after.backend := idle.agreeOn placed
      refine ⟨since.idle idle, ?_, fun plenty : Plenty (0 + 1) core.backend =>
        short plenty.offerFree⟩
      rw [idle.space]
      exact contents.of_agree placed agree
  · refine (ensureChild_ends_present held hidx link hptr).mono ?_ fun _ _ => False.elim
    rintro child after ⟨rfl, rfl⟩
    exact ⟨roles, since, contents, id, placed.linked hparent hidx hchild hptr, hptr,
      fun _ => id, .refl 1 _⟩

/-- The program gives the leaf of the page with at most two new tables, and fails only
where there are not two. -/
def GivesLeaf (old : Nat → Option Role) (start core : Core) (pages : PageMap) (vaddr : Nat)
  (program : CoreM Nat) : Prop :=
  Ends program core (fun leaf after => ∃ grown, Since old grown start after ∧
      Contents pages after.space after.backend ∧
      LeafAt after.space after.backend (slotOf vaddr) leaf ∧ Spends 2 core.backend after.backend)
    (fun _ after => ∃ grown, Since old grown start after ∧
      Contents pages after.space after.backend ∧ ¬ Plenty 2 core.backend)

theorem ensureLeaf_since (since : Since old roles start core)
  (contents : Contents pages core.space core.backend) (user : UserAddress vaddr) :
  GivesLeaf old start core pages vaddr
    (ensureLeafTable (0, slotOf vaddr, vaddr / pageSize % tableEntries)) := by
  unfold GivesLeaf ensureLeafTable
  rw [ends_get_bind]
  refine .bind ((ensureChild_since since contents since.placed.rootRole rfl rfl
    (by decide)).mono (fun _ _ ends => ends) ?_) ?_
  · rintro error after ⟨hafter, hpages, short⟩
    exact ⟨roles, hafter, hpages, fun plenty => short (plenty.mono (by decide))⟩
  rintro table mid ⟨grown, hmid, hpages, -, htable, root, -, spends⟩
  refine (ensureChild_since hmid hpages htable rfl ⟨rfl, user.slot⟩ (slotOf_lt user.2)).mono ?_ ?_
  · rintro leaf after ⟨wider, hafter, hpages, hwider, -, hleaf, kept, more⟩
    refine ⟨wider, hafter, hpages, ⟨table, ?_, hleaf⟩, spends.trans more⟩
    have middleRoot : mid.space.rootPfn = core.space.rootPfn := hmid.root.trans since.root.symm
    change pointer (after.backend.entries after.space.rootPfn 0) = some table
    rw [hafter.root.trans since.root.symm, ← middleRoot]
    refine kept hmid.placed.rootRole ?_
    rw [middleRoot]
    exact root
  · rintro error after ⟨hafter, hpages, short⟩
    exact ⟨grown, hafter, hpages, fun plenty => short (spends 1 plenty)⟩

end Core

/-! ## A space with tables of its own -/

/-- The space shows the pages, and its supervisor addresses are those of the first one. -/
structure Lone (first : AddressSpace) (base : TableBackend) (pages : PageMap)
  (space : AddressSpace) (backend : TableBackend) : Prop where
  placed : ∃ roles, Placed roles space backend
  contents : Contents pages space backend
  window : backend.window = base.window
  root : space.rootPfn = first.rootPfn
  supervisor : SupervisorSame first base backend

open PageTable.Core
variable {first space : AddressSpace} {base : TableBackend} {before : PageMap}
  {leaf len page pageCount : Nat}
theorem Lone.withOffers (lone : Lone first base pages space backend) (offers) :
  Lone first base pages space (backend.withOffers offers) := by
  obtain ⟨roles, placed⟩ := lone.placed
  have agree : AgreeOn roles backend (backend.withOffers offers) := fun _ _ _ => ⟨rfl, rfl⟩
  exact ⟨⟨roles, placed.of_agree agree⟩, lone.contents.of_agree placed agree, lone.window,
    lone.root, lone.supervisor⟩

theorem Since.lone (since : Since old roles start core)
  (hstart : Lone first base before start.space start.backend)
  (hcontents : Contents pages core.space core.backend) :
  Lone first base pages core.space core.backend where
  placed := ⟨roles, since.placed⟩
  contents := hcontents
  window := since.window.trans hstart.window
  root := since.root.trans hstart.root
  supervisor := hstart.supervisor.trans (since.supervisor.of_root hstart.root.symm)

theorem Restored.lone (restored : Restored old start after)
  (placed : Placed old start.space start.backend)
  (hstart : Lone first base pages start.space start.backend) :
  Lone first base pages after.space after.backend := by
  have agree : AgreeOn old start.backend after.backend := fun pfn role hrole =>
    ⟨restored.entries hrole, restored.references pfn⟩
  have same := (SupervisorSame.of_agree placed agree).of_root hstart.root.symm
  rw [restored.space]
  exact ⟨⟨old, placed.of_agree agree⟩, hstart.contents.of_agree placed agree,
    restored.window.trans hstart.window, hstart.root, hstart.supervisor.trans same⟩

theorem Lone.writeLeaf (lone : Lone first base pages space backend) (user : UserAddress vaddr)
  (hleaf : LeafAt space backend (slotOf vaddr) leaf) (page) :
  Lone first base (Function.update pages (vaddr / pageSize) page) space
    (backend.setEntry leaf (vaddr / pageSize % tableEntries) (encode page)) := by
  obtain ⟨roles, placed⟩ := lone.placed
  have role := hleaf.role placed (slotOf_lt user.2)
  have same : SupervisorSame space backend
    (backend.setEntry leaf (vaddr / pageSize % tableEntries) (encode page)) :=
    .writeLeaf placed role
  exact ⟨⟨roles, placed.writeLeaf role⟩, lone.contents.writeLeaf placed user hleaf page,
    lone.window, lone.root, lone.supervisor.trans (same.of_root lone.root.symm)⟩

/-- The leaf entry of a page. -/
theorem Contents.entry (contents : Contents pages space backend) (user : UserAddress vaddr)
  (hleaf : LeafAt space backend (slotOf vaddr) leaf) :
  backend.entries leaf (vaddr / pageSize % tableEntries) = encode (pages (vaddr / pageSize)) := by
  rw [← hleaf.view user.2, contents vaddr user]

theorem LeafAt.window (hleaf : LeafAt space backend (slotOf vaddr) leaf)
  (placed : Placed roles space backend) (user : UserAddress vaddr) : backend.window.Has leaf :=
  placed.window (hleaf.role placed (slotOf_lt user.2))

/-- The page that a user address lies in, or none. -/
theorem Lone.walk (lone : Lone first base pages space backend) (user : UserAddress vaddr) :
  (∃ leaf, LeafAt space backend (slotOf vaddr) leaf ∧ backend.window.Has leaf ∧
    leafLocation space backend vaddr = .ok (leaf, vaddr / pageSize % tableEntries)) ∨
    leafLocation space backend vaddr = .error .notMapped ∧ pages (vaddr / pageSize) = none := by
  obtain ⟨roles, placed⟩ := lone.placed
  rcases placed.walk user with ⟨leaf, hleaf⟩ | ⟨-, walk, view⟩
  · exact .inl ⟨leaf, hleaf, hleaf.window placed user, hleaf.location placed user.2⟩
  · rw [lone.contents vaddr user] at view
    exact .inr ⟨walk, encode_eq_zero.mp view⟩

/-- The translation of the space is that of its pages. -/
theorem Lone.translateUser (lone : Lone first base pages space backend) (vaddr write) :
  space.translateUser backend vaddr write = Reference.translateUser pages vaddr write := by
  unfold AddressSpace.translateUser Reference.translateUser
  by_cases user : UserAddress vaddr
  · have range : userBase ≤ vaddr ∧ vaddr < userLimit := user
    rw [if_neg (not_not.mpr range), if_neg (not_not.mpr range)]
    rcases lone.walk user with ⟨leaf, hleaf, window, walk⟩ | ⟨walk, hnone⟩
    · rw [walk]
      dsimp only
      rw [TableBackend.readEntry_eq window (mod_lt _), lone.contents.entry user hleaf]
      cases pages (vaddr / pageSize) with
      | none => simp [descriptorValid_zero]
      | some page =>
        dsimp only
        rw [encode_some, pageDescriptor_translates]
    · rw [walk, hnone]
  · have range : ¬ (userBase ≤ vaddr ∧ vaddr < userLimit) := user
    rw [if_pos range, if_pos range]

theorem Core.userAddress_of_valid (valid : userRangeValid vaddr len = true) :
  UserAddress vaddr := by
  refine ⟨?_, (lt_limit_of_valid valid).1⟩
  unfold userRangeValid at valid
  simp only [Bool.and_eq_true, decide_eq_true_eq] at valid
  exact valid.1.2

theorem Core.userAddress_of_region (valid : userRangeValid vaddr (pageCount * pageSize) = true)
  (idx : page < pageCount) : UserAddress (vaddr + page * pageSize) := by
  have base := (userAddress_of_valid valid).1
  have limit := (lt_limit_of_valid valid).2
  unfold UserAddress
  unfold pageSize at *
  omega

end Smros.PageTable
