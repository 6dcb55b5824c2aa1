import Mathlib.Data.BitVec

/-!
# Rights of handles

A handle carries a mask of rights.  A handle made from another one gets the same rights
or a part of them.
-/

namespace Smros.Objects

inductive ZxError where
  | errNotFound
  | errInvalidArgs
  | errAccessDenied
  | errPeerClosed
  | errShouldWait
  | errOutOfRange
  | errNoMemory
  | errAlreadyExists
  deriving DecidableEq

abbrev Rights : Type := BitVec 32

namespace Rights
def duplicate : Rights := 1 <<< 0
def transfer : Rights := 1 <<< 1
def read : Rights := 1 <<< 2
def write : Rights := 1 <<< 3
def execute : Rights := 1 <<< 4
def map : Rights := 1 <<< 5
def signal : Rights := 1 <<< 12
def signalPeer : Rights := 1 <<< 13
def wait : Rights := 1 <<< 14
def opChildren : Rights := 1 <<< 21

/-- `DefaultChannel`. -/
def defaultChannel : Rights := duplicate ||| transfer ||| read ||| write ||| signal ||| signalPeer ||| wait

end Rights

def invalidHandle : Nat := 0xFFFF_FFFF

def rightSameRights : Rights := 0x8000_0000

/-- `RIGHTS_ALL`: the groups of rights together are the bits from `Duplicate` to `ManageVmo`. -/
def rightsAll : Rights := 0x01FF_FFFF

def rightsSubset (requested existing : Rights) : Bool := requested &&& ~~~existing == 0

def rightsHas (rights required : Rights) : Bool := rights &&& required == required

def rightsAreValid (rights : Rights) : Bool := rightsSubset rights rightsAll

def handleIsValid (handle : Nat) : Bool := handle != 0 && handle != invalidHandle

variable (existing requested : Rights)

def replaceRightsAllowed : Bool :=
  requested == rightSameRights || (rightsAreValid requested && rightsSubset requested existing)

def duplicateRightsAllowed : Bool :=
  rightsHas existing .duplicate && replaceRightsAllowed existing requested

/-- The rights of a handle that is made from one with the existing rights. -/
def grantedRights : Rights :=
  if requested = rightSameRights then existing else requested

variable {requested existing} {first snd third : Rights}
theorem rightsSubset_iff : rightsSubset requested existing ↔
    ∀ bit < 32, requested.getLsbD bit = true → existing.getLsbD bit = true := by
  unfold rightsSubset
  rw [beq_iff_eq]
  constructor
  · intro zero bit hbit hrequested
    have hget := congrArg (fun mask => mask.getLsbD bit) zero
    simpa [hbit, hrequested] using hget
  intro hall
  refine BitVec.eq_of_getLsbD_eq fun bit hbit => ?_
  have hget := hall bit hbit
  simp only [BitVec.getLsbD_and, BitVec.getLsbD_not, hbit, decide_true, Bool.true_and]
  cases hrequested : requested.getLsbD bit with
  | false => simp
  | true => simp [hget hrequested]

theorem rightsSubset_trans (hfirst : rightsSubset first snd)
  (hsnd : rightsSubset snd third) : rightsSubset first third := by
  rw [rightsSubset_iff] at hfirst hsnd ⊢
  exact fun bit hbit hset => hsnd bit hbit (hfirst bit hbit hset)

theorem grantedRights_subset (allowed : replaceRightsAllowed existing requested) :
  rightsSubset (grantedRights existing requested) existing := by
  unfold replaceRightsAllowed at allowed
  unfold grantedRights
  split
  · exact rightsSubset_iff.mpr fun _ _ => id
  · simp_all

end Smros.Objects
