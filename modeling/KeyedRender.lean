import KeyedRender.Document.Lemmas
import KeyedRender.Session
import KeyedRender.Proofs.Document.Blobs
import KeyedRender.Proofs.Document.Erasure
import KeyedRender.Proofs.Document.Tree
import KeyedRender.Proofs.Document.Change
import KeyedRender.Proofs.Target.Blobs
import KeyedRender.Proofs.Target.Frames
import KeyedRender.Proofs.Target.Operations
import KeyedRender.Proofs.Target.Soundness
import KeyedRender.Proofs.Render.Quiet
import KeyedRender.Proofs.Target.Edits
import KeyedRender.Proofs.Render.Stable
import KeyedRender.Proofs.Document.Slots
import KeyedRender.Proofs.Target.Slots
import KeyedRender.Proofs.Render.Contents
import KeyedRender.Proofs.Script.Blobs
import KeyedRender.Proofs.Script.Steady
import KeyedRender.Proofs.Session.Blobs
import KeyedRender.Proofs.Session.Reached
import KeyedRender.Proofs.Target.Stable
import KeyedRender.Proofs.Session.Tree
import KeyedRender.Proofs.Session.Attachment
import KeyedRender.Proofs.Document.Drawing
import KeyedRender.Proofs.Document.Region
import KeyedRender.Proofs.Target.Drawing
import KeyedRender.Proofs.Target.Writing
import KeyedRender.Proofs.Render.Registry
import KeyedRender.Proofs.Session.Bracketed
import KeyedRender.Proofs.Session.Agreement
import KeyedRender.Proofs.Key.Delimited
import KeyedRender.Proofs.Script.Tidy
import KeyedRender.Proofs.Document.Siblings
import KeyedRender.Proofs.Target.Moves
import KeyedRender.Proofs.Target.Enclosed
import KeyedRender.Proofs.Script.Visits
import KeyedRender.Proofs.Target.Row
import KeyedRender.Proofs.Session.Identity
import KeyedRender.Proofs.Key.Composite
import KeyedRender.Proofs.Decimal.Length
import KeyedRender.Proofs.Key.RoundTrip
import KeyedRender.Proofs.Target.Confined
import KeyedRender.Proofs.Target.Placing
import KeyedRender.Proofs.Target.Around
import KeyedRender.Proofs.Script.Lays
import KeyedRender.Proofs.Target.Line
import KeyedRender.Proofs.Session.Line
import KeyedRender.Proofs.Document.Idle
import KeyedRender.Proofs.Script.Plan
import KeyedRender.Proofs.Session.Again
import KeyedRender.Proofs.Document.Records
import KeyedRender.Proofs.Target.Records
import KeyedRender.Proofs.Script.Moments
import KeyedRender.Proofs.Script.Course
import KeyedRender.Proofs.Script.Trail
import KeyedRender.Proofs.Script.Path
import KeyedRender.Proofs.Script.Traces
import KeyedRender.Proofs.Script.Muted
import KeyedRender.Proofs.Document.Chronicle
import KeyedRender.Proofs.Target.Served
import KeyedRender.Proofs.Script.Served
import KeyedRender.Proofs.Script.Arrivals
import KeyedRender.Proofs.Session.Arrivals
import KeyedRender.Proofs.Session.Known
import KeyedRender.Proofs.Document.Plain
import KeyedRender.Proofs.Render.Paired
import KeyedRender.Proofs.Render.Mirror
import KeyedRender.Proofs.Script.Mirrored
import KeyedRender.Proofs.Document.Attaching
import KeyedRender.Proofs.Target.Anew
import KeyedRender.Proofs.Session.Anew
import KeyedRender.Proofs.Script.Composition
import KeyedRender.Proofs.Target.Composed
import KeyedRender.Proofs.Target.Recomposed
import KeyedRender.Proofs.Session.Recurring
import KeyedRender.Proofs.Script.Distinct
import KeyedRender.Proofs.Script.Outline
import KeyedRender.Proofs.Document.Spelling
import KeyedRender.Proofs.Target.Serializing
import KeyedRender.Proofs.Session.Serialized
import KeyedRender.Proofs.Script.Queueing
import KeyedRender.Proofs.Script.Synchronized
import KeyedRender.Proofs.Script.Voice
import KeyedRender.Proofs.Render.Sounding
import KeyedRender.Proofs.Render.Ground
import KeyedRender.Proofs.Render.Voicing
import KeyedRender.Proofs.Document.Thinning
import KeyedRender.Proofs.Target.Grounds
import KeyedRender.Proofs.Script.Voiced
import KeyedRender.Proofs.Target.Vacant
import KeyedRender.Proofs.Session.Heard
import KeyedRender.Proofs.Document.Editing
import KeyedRender.Proofs.Target.Editing
import KeyedRender.Proofs.Target.Calling
import KeyedRender.Proofs.Target.Ordered
import KeyedRender.Proofs.Script.Callers
import KeyedRender.Proofs.Script.Filling
import KeyedRender.Proofs.Script.Reentry
import KeyedRender.Proofs.Session.Reentry
import KeyedRender.Proofs.Markup.Escaping
import KeyedRender.Proofs.Markup.ReadBack
import KeyedRender.Proofs.Markup.Pattern
import KeyedRender.Proofs.Key.Scopes
import KeyedRender.Proofs.Render.Follows
import KeyedRender.Proofs.Render.Writing
import KeyedRender.Proofs.Script.Callback
import KeyedRender.Proofs.Script.Probing
import KeyedRender.Proofs.Script.Departures
import KeyedRender.Proofs.Target.Passed
import KeyedRender.Proofs.Target.Commented
import KeyedRender.Proofs.Script.Comments
import KeyedRender.Proofs.Session.Comments
import KeyedRender.Proofs.Key.Grammar
import KeyedRender.Proofs.Target.Skipped
import KeyedRender.Proofs.Session.Skipped
import KeyedRender.Proofs.Key.Brackets
import KeyedRender.Proofs.Script.Brackets
import KeyedRender.Proofs.Decimal.ReadBack
import KeyedRender.Proofs.Key.Failures
import KeyedRender.Proofs.Key.Numbers
import KeyedRender.Proofs.Markup.Spellings
import KeyedRender.Proofs.Text.Runs
import KeyedRender.Proofs.Key.Slices
import KeyedRender.Proofs.Decimal.Rounding
import KeyedRender.Proofs.Document.Properties
import KeyedRender.Proofs.Target.Properties
import KeyedRender.Proofs.Script.Guarded
import KeyedRender.Proofs.Script.Properties
import KeyedRender.Proofs.Session.Guarded
import KeyedRender.Proofs.Session.Properties
import KeyedRender.Proofs.Markup.References
import KeyedRender.Proofs.Session.Parameters
import KeyedRender.Proofs.Target.Attributed
import KeyedRender.Proofs.Key.NumericText
import KeyedRender.Proofs.Document.Walking
import KeyedRender.Proofs.Document.Printing
import KeyedRender.Proofs.Target.Arena
import KeyedRender.Proofs.Target.Scanning
import KeyedRender.Proofs.Session.Scanning
import KeyedRender.Proofs.Document.Bare
import KeyedRender.Proofs.Target.Bare
import KeyedRender.Proofs.Target.Visiting
import KeyedRender.Proofs.Target.Retaining
import KeyedRender.Proofs.Script.Visiting
import KeyedRender.Proofs.Session.Visiting
