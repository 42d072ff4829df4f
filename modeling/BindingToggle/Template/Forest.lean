import BindingToggle.Template.Markup

/-!
# The tree of a template

The events of a template are folded into a forest with a stack of open elements, innermost first. A
closing tag closes the innermost open element of its name, in any ASCII case, and ends every
element that is still open inside it; each of these is reported, as is a closing tag that finds no
element. What is open at the end of the template ends there and is reported too.

`parseTemplate` never fails: it gives the forest and the issues, in the order in which they are
met.

Models what `parse_template` builds: `Builder.closeTag` is what `parse_close_tag` does with the open
elements, and `Builder.finish` is `finish`.
-/

namespace BindingToggle

/-- An element whose closing tag has not been met. -/
structure OpenElement where
  tag : Text
  start : Nat
  attributes : List Attribute
  /-- The elements inside it so far, the last one first. -/
  children : List Element
  deriving Repr, Inhabited

namespace OpenElement

/-- The element, ending at `stop`. -/
def close (o : OpenElement) (stop : Nat) : Element :=
  ⟨o.tag, ⟨o.start, stop⟩, o.attributes, o.children.reverse, false⟩

/-- The report of an element that ends without its closing tag; it points at the tag's name. -/
def unclosed (o : OpenElement) : Issue :=
  ⟨.unclosedElement o.tag, ⟨o.start, o.start + Text.width o.tag + 1⟩⟩

end OpenElement

/-- A forest that is being built. -/
structure Builder where
  /-- The open elements, the innermost first. -/
  stack : List OpenElement
  /-- The complete elements outside of all others, the last one first. -/
  roots : List Element
  /-- The issues met, the last one first. -/
  issues : List Issue
  deriving Repr, Inhabited

namespace Builder

def empty : Builder := ⟨[], [], []⟩

/-- Reports an issue. -/
def report (i : Issue) (b : Builder) : Builder := { b with issues := i :: b.issues }

/-- Adds a complete element inside the innermost open one. -/
def add (e : Element) (b : Builder) : Builder :=
  match b.stack with
  | [] => { b with roots := e :: b.roots }
  | o :: below => { b with stack := { o with children := e :: o.children } :: below }

/-- Ends the innermost open element at `stop`. -/
def close (stop : Nat) (b : Builder) : Builder :=
  match b.stack with
  | [] => b
  | o :: below => { b with stack := below }.add (o.close stop)

/-- Ends the innermost open element at `stop` and reports that it was not closed. -/
def abandon (stop : Nat) (b : Builder) : Builder :=
  match b.stack with
  | [] => b
  | o :: below => ({ b with stack := below }.report o.unclosed).add (o.close stop)

/-- Ends the innermost `count` open elements at `stop` and reports each. -/
def abandonMany (stop : Nat) : Nat → Builder → Builder
  | 0, b => b
  | count + 1, b => abandonMany stop count (b.abandon stop)

/-- Meets a closing tag. -/
def closeTag (tag : Text) (span : Span) (b : Builder) : Builder :=
  match b.stack.findIdx? fun o => Text.eqFolded o.tag tag with
  | none => b.report ⟨.unexpectedClosingTag tag, span⟩
  | some depth => (b.abandonMany span.start depth).close span.stop

/-- Takes in one event. -/
def step (b : Builder) : Markup.Event → Builder
  | .issue i => b.report i
  | .leaf e => b.add e
  | .opening tag start attributes => { b with stack := ⟨tag, start, attributes, []⟩ :: b.stack }
  | .closing tag span => b.closeTag tag span

/-- Ends everything that is open at the end of the template. -/
def finish (stop : Nat) (b : Builder) : Builder := b.abandonMany stop b.stack.length

end Builder

/-- The elements of a template, and its issues in the order in which they are met. -/
structure Template where
  roots : List Element
  issues : List Issue
  deriving Repr, Inhabited

/-- All elements of a template, depth first in source order. -/
def Template.elements (t : Template) : List Element := Element.preorderAll t.roots

/-- The template that a source describes. -/
def parseTemplate (source : Text) : Template :=
  let built := (Markup.events ⟨0, source⟩).foldl Builder.step Builder.empty
  let finished := built.finish (Text.width source)
  ⟨finished.roots.reverse, finished.issues.reverse⟩

end BindingToggle
