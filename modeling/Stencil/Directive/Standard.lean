import Stencil.Directive.Registry
import Stencil.Directive.Standard.Asset
import Stencil.Directive.Standard.Component
import Stencil.Directive.Standard.Control

/-!
# The standard directives

Layout directives come before the directives whose placeholders they show, so that a layout is
rendered before placeholders are filled in.
-/
namespace Stencil.Directive.Standard

/-- Every standard directive, in order. -/
def all : List Definition :=
  [ifDirective, switchDirective, eachDirective, setDirective, includeDirective, extendsDirective,
    sectionDirective, yieldDirective, pushDirective, stackDirective, componentDirective,
    slotDirective, clientDirective, styleDirective]

def registrations : List (Option Registration) := all.map fun d => some { definition := d }

/-- The registry of the standard directives. -/
def registry : Registry := { entries := all.map fun d => { definition := d } }

end Stencil.Directive.Standard
