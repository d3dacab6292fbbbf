import MiniScheme.Datum.Step
import MiniScheme.Store.Equal
import MiniScheme.Store.Dump
import MiniScheme.Session.Screen
import MiniScheme.Main
import MiniScheme.Proofs.Token.Cut
import MiniScheme.Proofs.Datum.RoundTrip
import MiniScheme.Proofs.Eval.Scoping
import MiniScheme.Proofs.Eval.Mutation
import MiniScheme.Proofs.Session.Range
import MiniScheme.Proofs.Session.ReadBack
import MiniScheme.Proofs.Session.Script
import MiniScheme.Proofs.Session.Names
import MiniScheme.Proofs.Session.Whole
import MiniScheme.Proofs.Session.Trace
import MiniScheme.Proofs.Session.Isolation
import MiniScheme.Proofs.Store.ProperList
import MiniScheme.Proofs.Store.Writer
import MiniScheme.Proofs.Text.Stops
import MiniScheme.Proofs.Store.Elision
import MiniScheme.Proofs.Store.Opening
import MiniScheme.Proofs.Eval.Application
import MiniScheme.Proofs.Store.ScopeHistory
import MiniScheme.Proofs.Datum.Forward
import MiniScheme.Proofs.Datum.Replies
import MiniScheme.Proofs.Eval.Fault
import MiniScheme.Proofs.Session.Declaration
import MiniScheme.Proofs.Eval.Arithmetic
import MiniScheme.Proofs.Eval.Connective
import MiniScheme.Proofs.Eval.Division
import MiniScheme.Proofs.Eval.Comparison
import MiniScheme.Proofs.Eval.Index
import MiniScheme.Proofs.Eval.Reading
import MiniScheme.Proofs.Token.Numeral
