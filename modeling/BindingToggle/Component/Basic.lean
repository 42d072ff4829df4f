import BindingToggle.Component.Block
import BindingToggle.Template.Forest

/-!
# Components

A component document embeds a template. `parseComponent` finds the template block, reads its
content, and moves the issues of the template to their places in the document. A template that is
written in another language than HTML, or that is kept in another file, is not read, and no issue
is reported for it.

Models `parse_sfc`.
-/

namespace BindingToggle

/-- The template of a component, with the place in the document at which its spans start. -/
structure EmbeddedTemplate where
  anchor : Anchor
  lang : Option Text
  roots : List Element
  deriving Repr, Inhabited

/-- What was read from a component document. -/
structure Component where
  template : Option EmbeddedTemplate
  /-- The issues of the template, in document offsets. -/
  issues : List Issue
  deriving Repr, Inhabited

namespace Component

/-- A document without a template that is read. -/
def empty : Component := ⟨none, []⟩

/-- The reports of a component's issues. -/
def diagnostics (c : Component) : List Diagnostic := c.issues.map Issue.toDiagnostic

/-- Whether a template block with these attributes is read: it has no source elsewhere, and its
language, if given, is HTML. -/
def isRead (attributes : Text) : Bool :=
  (Block.attribute? "src".toList attributes).isNone &&
    ((Block.attribute? "lang".toList attributes).map (Text.eqFolded · "html".toList)).getD true

/-- The report of a template block without a closing tag. -/
def missingEnd (block : Block.TemplateBlock) : List Issue :=
  if block.closed then []
  else [⟨.missingTemplateEnd, ⟨block.start, block.contentStart⟩⟩]

/-- The component whose template is the content of a block. -/
def ofBlock (block : Block.TemplateBlock) : Component :=
  let template := parseTemplate block.content
  { template := some
      { anchor := ⟨block.contentStart⟩
        lang := Block.attribute? "lang".toList block.attributes
        roots := template.roots }
    issues := template.issues.map (Issue.shift block.contentStart) ++ missingEnd block }

end Component

/-- The component that a document describes. -/
def parseComponent (document : Text) : Component :=
  match Block.findTemplate? ⟨0, document⟩ with
  | none => .empty
  | some block => if Component.isRead block.attributes then .ofBlock block else .empty

end BindingToggle
