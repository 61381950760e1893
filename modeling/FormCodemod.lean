import FormCodemod.Batch.Basic
import FormCodemod.Batch.CommandLine
import FormCodemod.Batch.Disk
import FormCodemod.Conversion
import FormCodemod.Convert.Capabilities
import FormCodemod.Convert.Context
import FormCodemod.Convert.FieldHook
import FormCodemod.Convert.FieldMarkup
import FormCodemod.Convert.Fieldset
import FormCodemod.Convert.FormWrapper
import FormCodemod.Convert.Imports
import FormCodemod.Convert.Input
import FormCodemod.Convert.Setting
import FormCodemod.Convert.Symbols
import FormCodemod.Decimal.Shortest
import FormCodemod.Error
import FormCodemod.Grammar.Cursor
import FormCodemod.Grammar.Expressions
import FormCodemod.Grammar.Functions
import FormCodemod.Grammar.Items
import FormCodemod.Grammar.Markup
import FormCodemod.Grammar.Patterns
import FormCodemod.Grammar.Productions
import FormCodemod.Grammar.Source
import FormCodemod.Grammar.Statements
import FormCodemod.Grammar.Token
import FormCodemod.Grammar.Types
import FormCodemod.Layout.Expressions
import FormCodemod.Layout.Markup
import FormCodemod.Layout.Rendered
import FormCodemod.Layout.Source
import FormCodemod.Layout.Statements
import FormCodemod.Layout.Tidy
import FormCodemod.Layout.Types
import FormCodemod.Layout.Writer
import FormCodemod.Library.Features
import FormCodemod.Library.Names
import FormCodemod.Library.Wiring
import FormCodemod.Main
import FormCodemod.Options.Basic
import FormCodemod.Options.Error
import FormCodemod.Options.Number
import FormCodemod.Options.Reader
import FormCodemod.Options.Scanner
import FormCodemod.Proofs.Scope.Handouts
import FormCodemod.Proofs.Scope.Ownership
import FormCodemod.Proofs.Tree.Places
import FormCodemod.Scope.Basic
import FormCodemod.Scope.Usage
import FormCodemod.Scope.Walk
import FormCodemod.Text.Chars
import FormCodemod.Text.Entity
import FormCodemod.Text.Fresh
import FormCodemod.Text.Hidden
import FormCodemod.Text.Letter
import FormCodemod.Text.Quoted
import FormCodemod.Text.Shown
import FormCodemod.Tree.Basic
import FormCodemod.Tree.Binding
import FormCodemod.Tree.Comments
import FormCodemod.Tree.Element
import FormCodemod.Tree.Kind
import FormCodemod.Tree.Make
import FormCodemod.Tree.Shape
import FormCodemod.Tree.Traversal
import FormCodemod.Proofs.Scope.Runs
import FormCodemod.Proofs.Tree.Alike
import FormCodemod.Proofs.Imports.Ensured
import FormCodemod.Proofs.Convert.Items
import FormCodemod.Proofs.Imports.Bookkeeping
import FormCodemod.Proofs.Names.Watch
import FormCodemod.Proofs.Names.Scopes
import FormCodemod.Proofs.Names.Made
import FormCodemod.Proofs.Names.Hooks
import FormCodemod.Proofs.Names.Elements
import FormCodemod.Proofs.Names.Wrapper
import FormCodemod.Proofs.Names.Markup
import FormCodemod.Proofs.Imports.Provided
import FormCodemod.Proofs.Grammar.Yields
import FormCodemod.Proofs.Scope.Boundary
import FormCodemod.Proofs.Convert.Append
import FormCodemod.Proofs.Convert.Frame
import FormCodemod.Proofs.Norms.Basic
import FormCodemod.Proofs.Norms.Elements
import FormCodemod.Proofs.Norms.Scopes
import FormCodemod.Proofs.Norms.Passes
import FormCodemod.Proofs.Norms.Types
import FormCodemod.Proofs.Batch.Run
import FormCodemod.Proofs.Layout.Tidy
import FormCodemod.Proofs.Tree.Outermost
import FormCodemod.Proofs.Wrapper.Grammar
import FormCodemod.Proofs.Wrapper.Statements
import FormCodemod.Proofs.Tree.Outline
import FormCodemod.Proofs.Tree.Replaced
import FormCodemod.Proofs.Convert.Reads
import FormCodemod.Proofs.Convert.Declared
import FormCodemod.Proofs.Scope.Uses
import FormCodemod.Proofs.Scope.Treated
import FormCodemod.Proofs.Convert.Settled
import FormCodemod.Proofs.Context.Flattened
import FormCodemod.Proofs.Wrapper.Converted
import FormCodemod.Proofs.Wrapper.Outside
import FormCodemod.Proofs.Wrapper.Declared
import FormCodemod.Proofs.Wrapper.Leftover
import FormCodemod.Proofs.Convert.Capabilities
import FormCodemod.Proofs.Names.Free
import FormCodemod.Proofs.Convert.Inlined
import FormCodemod.Proofs.Convert.Handlers
import FormCodemod.Proofs.Context.Converted
import FormCodemod.Proofs.Context.Hooks
import FormCodemod.Proofs.Context.Bound
import FormCodemod.Proofs.Context.Leftover
import FormCodemod.Proofs.Names.Fresh
import FormCodemod.Proofs.FieldHook.Outcomes
import FormCodemod.Proofs.FieldHook.Awaits
import FormCodemod.Proofs.FieldHook.Declared
import FormCodemod.Proofs.FieldHook.Reads
import FormCodemod.Proofs.FieldHook.Bound
import FormCodemod.Proofs.FieldHook.Converted
import FormCodemod.Proofs.Convert.Parts
import FormCodemod.Proofs.FieldMarkup.Rewritten
import FormCodemod.Proofs.FieldMarkup.Steps
import FormCodemod.Proofs.FieldMarkup.Leftover
import FormCodemod.Proofs.FieldMarkup.Needs
import FormCodemod.Proofs.FieldMarkup.Declared
import FormCodemod.Proofs.Fieldset.Normal
import FormCodemod.Proofs.Inputs.Attributes
import FormCodemod.Proofs.Inputs.Uses
import FormCodemod.Proofs.Layout.Settled
import FormCodemod.Proofs.Imports.Merged
import FormCodemod.Proofs.Fieldset.Getters
import FormCodemod.Proofs.Wrapper.Provider
import FormCodemod.Proofs.Batch.Selected
