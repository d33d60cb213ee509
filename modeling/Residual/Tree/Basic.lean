import Residual.Digest
import Residual.Symbol

/-!
# Regex trees

`Tree σ` is the type of all trees that regular expressions over the symbols `σ` can be written as.
Each node carries two cached facts that are computed once, when the node is built: whether the tree
matches the empty word (`nullable`) and a structural digest (`digest`).

Only some trees are regexes: those in the canonical form of `Residual.Tree.Canonical`, in which two
trees that differ only by the laws of sequences, unions and intersections are the same.
-/

namespace Residual

/-- The two ways of joining any number of trees. -/
inductive Connective where
  /-- The words that some member matches. -/
  | or
  /-- The words that every member matches. -/
  | and
  deriving DecidableEq

/-- The tag of a connective, which also orders the two. -/
def Connective.tag : Connective → UInt8
  | or => 7
  | and => 8

/-- What a connective makes of truth values. -/
def Connective.truth : Connective → List Bool → Bool
  | or, values => values.any id
  | and, values => values.all id

/-- A tree that stands for a regular expression over the symbols `σ`. -/
inductive Tree (σ : Type) [Symbol σ] : Type where
  /-- Exactly one given symbol. -/
  | single (c : σ)
  /-- A given word. -/
  | block (cs : List σ)
  /-- Any one symbol. -/
  | any
  /-- Nothing, not even the empty word. -/
  | fail
  /-- Any number of words of a tree, one after another. -/
  | closure (t : Tree σ)
  /-- Every word that a tree does not match. -/
  | negation (t : Tree σ)
  /-- A word of one tree followed by a word of another. -/
  | sequence (t u : Tree σ)
  /-- The words that some member matches, or those that every member matches. -/
  | join (op : Connective) (members : List (Tree σ))
with
  /-- Whether a tree matches the empty word. -/
  @[computed_field] emptyFlag : (σ : Type) → (inst : Symbol σ) → @Tree σ inst → Bool
    | σ, inst, t => match t with
      | .single _ => false
      | .block _ => false
      | .any => false
      | .fail => false
      | .closure _ => true
      | .negation t => !emptyFlag σ inst t
      | .sequence t u => emptyFlag σ inst t && emptyFlag σ inst u
      | .join op members => op.truth (members.map fun t => emptyFlag σ inst t)
  /-- The digest of a node: its tag, and then what the node holds, children by their digests. -/
  @[computed_field] nodeDigest : (σ : Type) → (inst : Symbol σ) → @Tree σ inst → UInt64
    | σ, inst, t => match t with
      | .single c => Digest.symbol (Digest.tag 0) c
      | .block cs => Digest.symbols (Digest.tag 1) cs
      | .any => Digest.tag 2
      | .fail => Digest.tag 3
      | .closure t => Digest.word (Digest.tag 4) (nodeDigest σ inst t)
      | .negation t => Digest.word (Digest.tag 5) (nodeDigest σ inst t)
      | .sequence t u =>
          Digest.word (Digest.word (Digest.tag 6) (nodeDigest σ inst t)) (nodeDigest σ inst u)
      | .join op members =>
          Digest.words (Digest.tag op.tag) (members.map fun t => nodeDigest σ inst t)

namespace Tree

variable {σ : Type} [Symbol σ]

/-- The tree matches the empty word. -/
def nullable (t : Tree σ) : Bool :=
  emptyFlag σ _ t

/-- The structural digest of a tree. -/
def digest (t : Tree σ) : UInt64 :=
  nodeDigest σ _ t

/-- The tree that matches the empty word only. -/
def epsilon : Tree σ :=
  closure fail

/-- The tree that matches every word. -/
def success : Tree σ :=
  negation fail

/-! ## Kinds of trees -/

/-- The tree is the one that matches nothing. -/
def isFail : Tree σ → Bool
  | fail => true
  | _ => false

/-- The tree is the one that matches the empty word only. -/
def isEpsilon : Tree σ → Bool
  | closure fail => true
  | _ => false

/-- The tree is the one that matches every word. -/
def isSuccess : Tree σ → Bool
  | negation fail => true
  | _ => false

/-- The top node is a closure. -/
def isClosure : Tree σ → Bool
  | closure _ => true
  | _ => false

/-- The top node is a negation. -/
def isNegation : Tree σ → Bool
  | negation _ => true
  | _ => false

/-- The top node is a sequence. -/
def isSequence : Tree σ → Bool
  | sequence _ _ => true
  | _ => false

/-- The top node joins members by the given connective. -/
def isJoin (op : Connective) : Tree σ → Bool
  | join op' _ => op = op'
  | _ => false

theorem isFail_iff {t : Tree σ} : t.isFail = true ↔ t = fail := by
  cases t <;> simp [isFail]

theorem isEpsilon_iff {t : Tree σ} : t.isEpsilon = true ↔ t = epsilon := by
  unfold isEpsilon epsilon
  split <;> simp_all

theorem isSuccess_iff {t : Tree σ} : t.isSuccess = true ↔ t = success := by
  unfold isSuccess success
  split <;> simp_all

/-! ## The cached facts, node by node -/

section Cached

attribute [local simp] nullable emptyFlag

@[simp] theorem nullable_single (c : σ) : (single c).nullable = false := by
  simp

@[simp] theorem nullable_block (cs : List σ) : (block cs).nullable = false := by
  simp

@[simp] theorem nullable_any : (any : Tree σ).nullable = false := by
  simp

@[simp] theorem nullable_fail : (fail : Tree σ).nullable = false := by
  simp

@[simp] theorem nullable_closure (t : Tree σ) : (closure t).nullable = true := by
  simp

@[simp] theorem nullable_negation (t : Tree σ) : (negation t).nullable = !t.nullable := by
  simp

@[simp] theorem nullable_sequence (t u : Tree σ) :
    (sequence t u).nullable = (t.nullable && u.nullable) := by
  simp

@[simp] theorem nullable_join (op : Connective) (members : List (Tree σ)) :
    (join op members).nullable = op.truth (members.map nullable) := by
  simp; rfl

end Cached

theorem digest_block (cs : List σ) : (block cs).digest = Digest.symbols (Digest.tag 1) cs := by
  simp [digest, nodeDigest]

/-! ## Induction -/

/-- Induction over trees: a property holds of a node once it holds of all its children. -/
theorem ind {motive : Tree σ → Prop} (single : ∀ c, motive (single c))
    (block : ∀ cs, motive (block cs)) (any : motive any) (fail : motive fail)
    (closure : ∀ t, motive t → motive (closure t))
    (negation : ∀ t, motive t → motive (negation t))
    (sequence : ∀ t u, motive t → motive u → motive (sequence t u))
    (join : ∀ op members, (∀ t ∈ members, motive t) → motive (join op members))
    (t : Tree σ) : motive t :=
  @Tree.rec σ _ motive (fun members => ∀ t ∈ members, motive t)
    single block any fail closure negation sequence join
    (by simp) (fun _ _ head tail => by simpa using ⟨head, tail⟩) t

end Tree

end Residual
