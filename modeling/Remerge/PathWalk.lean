import Remerge.Table

/-!
# File trees with symbolic links

A tree maps locations to directories, files and links. A location is the list
of names from the innermost directory entry up to the root, and everything that
exists has a directory above it. Paths are walked hop by hop: `..` goes up, and
a link continues with its target, which may be absolute. Locations are what a
path leads to; a path without links on its way leads to itself.
-/

set_option autoImplicit false

namespace Remerge.PathWalk

/-- A hop that stays, such as an empty one after a last separator, still needs a
directory to stay in. -/
inductive Hop (N : Type) where
  | stay
  | up
  | down (name : N)
  deriving DecidableEq, Repr

inductive Node (L C : Type) where
  | dir
  | file (content : C)
  | link (target : L)
  deriving DecidableEq, Repr

abbrev Location (N : Type) : Type := List N

section
variable {L C : Type}

def Node.isDir : Node L C → Bool
  | .dir => true
  | _ => false

def Node.isLink : Node L C → Bool
  | .link _ => true
  | _ => false

end

structure Hierarchy (N L C : Type) [DecidableEq N] where
  nodes : Table (Location N) (Node L C)
  rooted : (nodes.lookup []).any Node.isDir
  closed : ∀ name dir, (nodes.lookup (name::dir)).isSome → (nodes.lookup dir).any Node.isDir

variable {N L C : Type} [DecidableEq N]

namespace Hierarchy

def node (t : Hierarchy N L C) (loc : Location N) : Option (Node L C) := t.nodes.lookup loc

def isDirAt (t : Hierarchy N L C) (loc : Location N) : Bool := (t.node loc).any Node.isDir

def isLinkAt (t : Hierarchy N L C) (loc : Location N) : Bool := (t.node loc).any Node.isLink

section

def fits (t : Hierarchy N L C) (loc : Location N) (x : Node L C) : Bool :=
  match loc with
  | [] => x.isDir
  | _::dir => t.isDirAt dir && (!t.isDirAt loc || x.isDir)

variable {loc : Location N} {x : Node L C}

theorem closed_insert (t : Hierarchy N L C) (h : t.fits loc x) :
    ((t.nodes.insert loc x).lookup []).any Node.isDir ∧
      ∀ name dir, ((t.nodes.insert loc x).lookup (name::dir)).isSome →
        ((t.nodes.insert loc x).lookup dir).any Node.isDir := by
  have hkept : ∀ dir, t.isDirAt dir →
      ((t.nodes.insert loc x).lookup dir).any Node.isDir := by
    intro dir hdir
    rw [AList.lookup_insert_ite]
    split
    · next he =>
      subst he
      cases dir with
      | nil => exact h
      | cons name parent =>
        have := h
        simp only [fits,hdir,Bool.not_true,Bool.false_or,Bool.and_eq_true] at this
        exact this.2
    · exact hdir
  refine ⟨hkept [] t.rooted,fun name dir hs => hkept dir ?_⟩
  rw [AList.lookup_insert_ite] at hs
  split at hs
  · next he =>
    subst he
    simp only [fits,Bool.and_eq_true] at h
    exact h.1
  · exact t.closed name dir hs

def put (t : Hierarchy N L C) (loc : Location N) (x : Node L C) : Hierarchy N L C :=
  if h : t.fits loc x = true then
    ⟨t.nodes.insert loc x,(t.closed_insert h).1,(t.closed_insert h).2⟩
  else t

theorem node_put (t : Hierarchy N L C) (h : t.fits loc x) (m : Location N) :
    (t.put loc x).node m = if m = loc then some x else t.node m := by
  unfold put
  rw [dif_pos h]
  exact AList.lookup_insert_ite t.nodes loc m x

theorem unlinked_put {t : Hierarchy N L C} (ht : ∀ m, t.isLinkAt m = false)
    (hx : x.isLink = false) (m : Location N) : (t.put loc x).isLinkAt m = false := by
  by_cases hf : t.fits loc x
  · rw [isLinkAt,node_put t hf]
    split
    · exact hx
    · exact ht m
  · rw [put,dif_neg hf]
    exact ht m

end

end Hierarchy

inductive WalkError where
  | notFound | notADirectory | tooManyLinks
  deriving DecidableEq, Repr

/-- How a link's target reads: whether it starts at the root, and its hops. -/
abbrev Expand (N L : Type) : Type := L → Option (Bool × List (Hop N))

variable (expand : Expand N L) (t : Hierarchy N L C)

/-- Walks until a link is met, which is handed on. A last hop that finds nothing
leads to where the entry would be. -/
def walkWith (again : Location N → List (Hop N) → Except WalkError (Location N)) :
    Location N → List (Hop N) → Except WalkError (Location N)
  | cwd, [] => .ok cwd
  | cwd, .stay::rest => walkWith again cwd rest
  | cwd, .up::rest => walkWith again cwd.tail rest
  | cwd, .down name::rest =>
    match t.node (name::cwd) with
    | none => if rest.isEmpty then .ok (name::cwd) else .error .notFound
    | some .dir => walkWith again (name::cwd) rest
    | some (.file _) => if rest.isEmpty then .ok (name::cwd) else .error .notADirectory
    | some (.link target) =>
      match expand target with
      | none => .error .notFound
      | some (absolute,hops) => again (if absolute then [] else cwd) (hops++rest)

def walk : ℕ → Location N → List (Hop N) → Except WalkError (Location N)
  | 0 => walkWith expand t fun _ _ => .error .tooManyLinks
  | links+1 => walkWith expand t (walk links)

/-- The links the kernel follows on one path. -/
def maxLinks : ℕ := 40

def hopsTo (path : List N) : List (Hop N) := path.reverse.map .down

def locate (path : List N) : Except WalkError (Location N) :=
  walk expand t maxLinks [] (hopsTo path)

variable {expand t} {loc : Location N}
  {again : Location N → List (Hop N) → Except WalkError (Location N)}

theorem not_link_of_dir (h : t.isDirAt loc) : t.isLinkAt loc = false := by
  unfold Hierarchy.isDirAt at h
  unfold Hierarchy.isLinkAt
  cases hn : t.node loc with
  | none => rfl
  | some x =>
    rw [hn] at h
    cases x with
    | dir | file content => rfl
    | link target => cases h

theorem isDirAt_of_append (front : List N) (h : t.isDirAt (front++loc)) : t.isDirAt loc := by
  induction front with
  | nil => exact h
  | cons name front ih =>
    refine ih (t.closed name _ ?_)
    cases hn : t.nodes.lookup (name::(front++loc)) with
    | none => simp [Hierarchy.isDirAt,Hierarchy.node,hn] at h
    | some x => rfl

theorem walkWith_dirs (names : List N) (cwd : Location N) (rest : List (Hop N))
    (h : t.isDirAt (names.reverse++cwd)) :
    walkWith expand t again cwd (names.map .down++rest) =
      walkWith expand t again (names.reverse++cwd) rest := by
  induction names generalizing cwd with
  | nil => rfl
  | cons name names ih =>
    rw [List.reverse_cons,List.append_assoc] at h ⊢
    have hdir : t.isDirAt (name::cwd) := isDirAt_of_append names.reverse h
    rw [List.map_cons,List.cons_append,walkWith]
    cases hn : t.node (name::cwd) with
    | none => simp [Hierarchy.isDirAt,hn] at hdir
    | some x =>
      cases x with
      | dir => exact ih (name::cwd) h
      | file | link => simp [Hierarchy.isDirAt,hn,Node.isDir] at hdir

/-- In a directory that exists, every name but a link leads to itself. -/
theorem walk_entry {name : N} {dir : Location N} (links : ℕ) (hd : t.isDirAt dir)
    (hl : t.isLinkAt (name::dir) = false) :
    walk expand t links [] (hopsTo (name::dir)) = .ok (name::dir) := by
  have hwalk : ∀ again, walkWith expand t again [] (hopsTo (name::dir)) =
      .ok (name::dir) := by
    intro again
    rw [hopsTo,List.reverse_cons,List.map_append,List.map_singleton,
      walkWith_dirs dir.reverse [] [.down name] (by simpa using hd),List.reverse_reverse,
      List.append_nil,walkWith]
    cases hn : t.node (name::dir) with
    | none => rfl
    | some x =>
      cases x with
      | dir | file content => rfl
      | link target => simp [Hierarchy.isLinkAt,hn,Node.isLink] at hl
  cases links with
  | zero => exact hwalk _
  | succ links => exact hwalk _

end Remerge.PathWalk
