import MacroPlugin.Main
import MacroPlugin.Proofs.Dispatch.History
import MacroPlugin.Proofs.Dispatch.ReplyForms
import MacroPlugin.Proofs.Expansion.Registration
import MacroPlugin.Proofs.Wire.RoundTrip
import MacroPlugin.Proofs.Transport.Serving
import MacroPlugin.Proofs.Transport.FailingSink
import MacroPlugin.Proofs.Transport.Redelivery
import MacroPlugin.Proofs.Transport.Truncation
import MacroPlugin.Proofs.Wire.LocalNumber
import MacroPlugin.Proofs.Wire.LocalSkip
import MacroPlugin.Proofs.Wire.LocalSchema
import MacroPlugin.Proofs.Wire.Fuel
import MacroPlugin.Proofs.Transport.Framings
import MacroPlugin.Proofs.Settings.Accepted
import MacroPlugin.Proofs.Settings.Limit
import MacroPlugin.Proofs.CommandLine.SingleRequest
import MacroPlugin.Proofs.CommandLine.Declaration
import MacroPlugin.Proofs.Json.Grammar
import MacroPlugin.Proofs.Wire.Passing
import MacroPlugin.Proofs.Wire.Stopping
import MacroPlugin.Proofs.Wire.Places
import MacroPlugin.Proofs.Wire.Entries
import MacroPlugin.Proofs.Wire.Structs
import MacroPlugin.Proofs.Wire.RecordKeys
import MacroPlugin.Proofs.Expansion.Literal
import MacroPlugin.Proofs.Json.Recognition
import MacroPlugin.Proofs.Wire.Passed
import MacroPlugin.Proofs.Wire.Envelope
import MacroPlugin.Proofs.CommandLine.Forwarding
import MacroPlugin.Proofs.Transport.Headers
import MacroPlugin.Proofs.Transport.Lines
import MacroPlugin.Proofs.Expansion.Entries
import MacroPlugin.Proofs.Settings.Given
import MacroPlugin.Proofs.Settings.Sections
import MacroPlugin.Proofs.Settings.Further
import MacroPlugin.Proofs.Toml.Spelling
import MacroPlugin.Proofs.Toml.Words
import MacroPlugin.Proofs.Toml.Layout
import MacroPlugin.Proofs.Settings.Written
import MacroPlugin.Proofs.Settings.Tables
import MacroPlugin.Proofs.Expansion.Argument
import MacroPlugin.Proofs.Expansion.Warning
import MacroPlugin.Proofs.Json.Pretty
import MacroPlugin.Proofs.CommandLine.Formats
import MacroPlugin.Proofs.CommandLine.Ending
import MacroPlugin.Proofs.Wire.Arrays
import MacroPlugin.Proofs.Wire.Forms
import MacroPlugin.Proofs.Wire.Nodes
