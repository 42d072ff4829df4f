import BindingToggle.Component.Basic
import BindingToggle.Proofs.BlockScan

/-!
# Blocks inside blocks

The content of a block may hold tags of the name of the block, and comments with anything in them.
`Balanced` describes the contents whose tags come in pairs.

* `closingTag?_balanced` — the scan for the closing tag passes over a balanced content, and is as
  deep behind it as it was in front of it.
* `parseComponent_balanced` — so a component that begins with a template block has the balanced
  content of that block as its template, whatever follows the block.
-/

namespace BindingToggle

namespace Block

open Text

/-- The content of a block called `name` in which the tags of that name come in pairs. It is made of
chunks, and between two of them a comment, a block with such a content, or a block that closes
itself. -/
inductive Balanced (name : Text) : Text → Prop
  | chunk {t : Text} (ht : IsChunk name t) : Balanced name t
  | comment {t body rest : Text} (hn : hasComments name = true) (ht : IsChunk name t)
      (hb : ¬ "-->".toList <:+: body) (hr : Balanced name rest) :
      Balanced name (t ++ ("<!--".toList ++ (body ++ ("-->".toList ++ rest))))
  | nested {t attributes content rest : Text} (ht : IsChunk name t) (ha : IsAttributes attributes)
      (hlast : attributes.getLast? ≠ some '/') (hc : Balanced name content)
      (hr : Balanced name rest) :
      Balanced name (t ++ (openTag name attributes ++ (content ++ (closeTag name ++ rest))))
  | selfClosing {t attributes rest : Text} (ht : IsChunk name t) (ha : IsAttributes attributes)
      (hr : Balanced name rest) :
      Balanced name (t ++ (openTag name (attributes ++ ['/']) ++ rest))

theorem IsAttributes.slash {attributes : Text} (h : IsAttributes attributes) :
    IsAttributes (attributes ++ ['/']) := by
  refine ⟨?_, h.text.append (.char (by decide) (by decide) .nil)⟩
  cases attributes with
  | nil => rfl
  | cons c attributes => exact h.ends

/-- **The scan passes over a balanced content**, and is as deep behind it as in front of it. -/
theorem closingTag?_balanced {name content rest : Text} (hname : IsBlockName name)
    (hc : Balanced name content) (hrest : rest.head? = some '<') (depth offset : Nat) :
    closingTag? name depth ⟨offset, content ++ rest⟩ =
      closingTag? name depth ⟨offset + width content, rest⟩ := by
  -- each part is passed over in front of the parts that follow it, which begin with a mark
  induction hc generalizing depth offset rest with
  | chunk ht => exact closingTag?_chunk hname ht hrest depth offset
  | @comment t body behind hn ht hb _ ih =>
    simp only [List.append_assoc]
    rw [closingTag?_chunk hname ht rfl, closingTag?_comment hn hb, ih hrest]
    simp only [width_append, Nat.add_assoc]
  | @nested t attributes inner behind ht ha hlast _ _ ihinner ihbehind =>
    simp only [List.append_assoc]
    rw [closingTag?_chunk hname ht rfl, closingTag?_openTag hname ha, if_neg hlast, ihinner rfl,
      closingTag?_closeTag hname]
    show closingTag? name depth ⟨_, behind ++ rest⟩ = _
    rw [ihbehind hrest]
    simp only [width_append, Nat.add_assoc]
  | @selfClosing t attributes behind ht ha _ ih =>
    have hlast : (attributes ++ ['/']).getLast? = some '/' := by simp
    simp only [List.append_assoc]
    rw [closingTag?_chunk hname ht rfl, closingTag?_openTag hname ha.slash, if_pos hlast,
      ih hrest]
    simp only [width_append, Nat.add_assoc]

/-- A block with a balanced content ends with its own closing tag. -/
theorem closingTag?_block {name content : Text} (hname : IsBlockName name)
    (hc : Balanced name content) (offset : Nat) (rest : Text) :
    closingTag? name 0 ⟨offset, content ++ (closeTag name ++ rest)⟩ =
      some (⟨offset + width content, closeTag name ++ rest⟩,
        ⟨offset + width content + width (closeTag name), rest⟩) := by
  rw [closingTag?_balanced hname hc rfl, closingTag?_closeTag hname]

/-! ## The template -/

theorem isBlockName_templateName : IsBlockName templateName :=
  ⟨by decide, by decide, by decide⟩

theorem templateBlock_balanced {content : Text} (hc : Balanced templateName content)
    (attributes : Text) (start offset : Nat) (selfClosing : Bool) (rest : Text) :
    templateBlock start
        ⟨attributes, ⟨offset, content ++ (closeTag templateName ++ rest)⟩, selfClosing⟩ =
      ⟨start, attributes, offset, content, true⟩ := by
  have hcontent : (Cursor.mk offset (content ++ (closeTag templateName ++ rest))).upTo
      ⟨offset + width content, closeTag templateName ++ rest⟩ = content :=
    Cursor.upTo_eq_of_between ⟨rfl, rfl⟩
  simp only [templateBlock, closingTag?_block isBlockName_templateName hc, hcontent]

/-- The template of a document that begins with it. -/
theorem findTemplate?_balanced {content : Text} (hc : Balanced templateName content)
    (rest : Text) :
    findTemplate? ⟨0, openTag templateName [] ++ (content ++ (closeTag templateName ++ rest))⟩ =
      some ⟨0, [], 10, content, true⟩ := by
  rw [findTemplate?_openTag isBlockName_templateName ⟨rfl, .nil⟩]
  exact congrArg some (templateBlock_balanced hc [] 0 _ _ rest)

end Block

open Block

/-- **The template of a component is the balanced content of its block**, with the issues of that
content at their places in the document. -/
theorem parseComponent_balanced {content : Text} (hc : Balanced templateName content)
    (rest : Text) :
    parseComponent ("<template>".toList ++ (content ++ ("</template>".toList ++ rest))) =
      { template := some ⟨⟨10⟩, none, (parseTemplate content).roots⟩
        issues := (parseTemplate content).issues.map (Issue.shift 10) } := by
  have hfind : findTemplate?
      ⟨0, "<template>".toList ++ (content ++ ("</template>".toList ++ rest))⟩ =
        some ⟨0, [], 10, content, true⟩ := findTemplate?_balanced hc rest
  have hlang : attribute? "lang".toList [] = none := by decide +kernel
  have hread : Component.isRead [] = true := by decide +kernel
  simp only [parseComponent, hfind, hread, Component.ofBlock, hlang, Component.missingEnd]
  simp

/-- A name that only begins like a template, a closing tag in a comment, and a nested template with
another one inside that closes itself. -/
theorem parseComponent_balanced_nested :
    ∃ content,
      content = "</templates><!--</template>--><template v='>'><template/></template>".toList ∧
      Balanced templateName content ∧
      parseComponent ("<template>".toList ++ (content ++ ("</template>".toList ++ "<p>".toList))) =
        { template := some ⟨⟨10⟩, none, (parseTemplate content).roots⟩
          issues := (parseTemplate content).issues.map (Issue.shift 10) } := by
  have hvalue : IsTagText ('\'' :: (['>'] ++ ['\''])) := .quoted (.inr rfl) (by decide) .nil
  have hattributes : IsAttributes " v='>'".toList :=
    ⟨by decide, .char (by decide) (by decide) (.char (by decide) (by decide)
      (.char (by decide) (by decide) hvalue))⟩
  have hempty : IsChunk templateName [] := by decide
  have hinner : Balanced templateName ([] ++ (openTag templateName ([] ++ ['/']) ++ [])) :=
    .selfClosing hempty ⟨rfl, .nil⟩ (.chunk hempty)
  have hnested : Balanced templateName ([] ++ (openTag templateName " v='>'".toList ++
      ("<template/>".toList ++ (closeTag templateName ++ [])))) :=
    .nested hempty hattributes (by decide) hinner (.chunk hempty)
  have hcontent : Balanced templateName ("</templates>".toList ++ ("<!--".toList ++
      ("</template>".toList ++
        ("-->".toList ++ "<template v='>'><template/></template>".toList)))) :=
    .comment (by decide) (by decide) (by decide) hnested
  refine ⟨_, ?_, hcontent, parseComponent_balanced hcontent "<p>".toList⟩
  simp

end BindingToggle
