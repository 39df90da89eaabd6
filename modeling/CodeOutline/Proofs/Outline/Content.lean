import CodeOutline.Outline.Program
import CodeOutline.Proofs.Outline.Part

namespace CodeOutline

/-- A node without its place. -/
structure Content where
  kind : NodeKind
  relation : Relation
  name : Option String
  rawText : Option String
  deriving DecidableEq, Repr

def NodeLabel.content (label : NodeLabel) : Content :=
  ⟨label.kind, label.relation, label.name, label.rawText⟩

/-- The trimmed text of a slice, if any is left. -/
def Slice.fragment? (slice : Slice) : Option String :=
  if slice.trim.isEmpty then none else some slice.trim.text

def Wording.text? : Wording → Option String
  | .absent => none
  | .words text => some text
  | .quoted slice => slice.fragment?

def Item.content (item : Item) : Content :=
  ⟨item.kind, item.relation, item.name, item.wording.text?⟩

namespace Source

variable {source : Source}

theorem label_describe (source : Source) (outline : Outline) :
    (outline.map source.describe).label = source.describe outline.label := by
  cases outline
  rw [Tree.map_node]
  rfl

theorem children_describe (source : Source) (outline : Outline) :
    (outline.map source.describe).children = outline.children.map (Tree.map source.describe) := by
  cases outline
  rw [Tree.map_node]
  rfl

theorem quote_of_isPart (h : source.masked = source.cells) {part : Slice}
    (hp : part.IsPart source.view) : source.quote part = part.text := by
  have hc := hp.cells_eq
  rw [quote, ← h]
  exact congrArg Cell.text hc

theorem describe_content (h : source.masked = source.cells) {item : Item}
    (hp : ∀ slice, item.wording = .quoted slice → slice.IsPart source.view) :
    (source.describe item).content = item.content := by
  have hw : source.wording item.wording = item.wording.text? := by
    cases hi : item.wording with
    | absent => rfl
    | words text => rfl
    | quoted slice =>
      have ht := (Slice.isPart_trim slice).trans (hp slice hi)
      simp only [wording, fragment?, Wording.text?, Slice.fragment?, quote_of_isPart h ht]
  simp only [describe, NodeLabel.content, Item.content, hw]

theorem tree_content (h : source.masked = source.cells) :
    source.tree.map NodeLabel.content = (Outline.ofText source.view).map Item.content := by
  rw [tree, Tree.map_map]
  exact Tree.map_congr fun item hm =>
    describe_content h (Outline.quotes_ofText source.view item hm)

end Source

end CodeOutline
