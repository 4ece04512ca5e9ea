import DeckDuel.Agenda
import DeckDuel.Battle
import DeckDuel.Card
import DeckDuel.Checkpoint
import DeckDuel.Codec
import DeckDuel.Context
import DeckDuel.Decimal.Binary64
import DeckDuel.Decimal.Numeral
import DeckDuel.Decimal.Shortest
import DeckDuel.Document.Card
import DeckDuel.Document.Event
import DeckDuel.Document.Rules
import DeckDuel.Document.Snapshot
import DeckDuel.Document.Status
import DeckDuel.Effect.Catalog
import DeckDuel.Effect.Clause
import DeckDuel.Effect.Fault
import DeckDuel.Effect.Memo
import DeckDuel.Effect.Operand
import DeckDuel.Effect.Parser
import DeckDuel.Effect.Split
import DeckDuel.Engine.Ability
import DeckDuel.Engine.Cards
import DeckDuel.Engine.Live
import DeckDuel.Engine.Phase
import DeckDuel.Engine.Reaction
import DeckDuel.Engine.Run
import DeckDuel.Engine.Stat
import DeckDuel.Engine.Status
import DeckDuel.Event
import DeckDuel.Fighter
import DeckDuel.Formula
import DeckDuel.Formula.Equality
import DeckDuel.Formula.Parser
import DeckDuel.Formula.Term
import DeckDuel.Formula.Token
import DeckDuel.Json
import DeckDuel.Json.Decode
import DeckDuel.Json.Doc
import DeckDuel.Json.Scan
import DeckDuel.Modifier
import DeckDuel.Modifier.Resolve
import DeckDuel.Modifier.Term
import DeckDuel.Pile
import DeckDuel.Proofs.AbilityIds
import DeckDuel.Proofs.AbilityPasses
import DeckDuel.Proofs.Account
import DeckDuel.Proofs.Accounted
import DeckDuel.Proofs.Aftermath
import DeckDuel.Proofs.Agrees
import DeckDuel.Proofs.Alike
import DeckDuel.Proofs.BatchOrder
import DeckDuel.Proofs.BlankPlaces
import DeckDuel.Proofs.Call
import DeckDuel.Proofs.CanonicalForm
import DeckDuel.Proofs.CardAccount
import DeckDuel.Proofs.CardConservation
import DeckDuel.Proofs.CardUids
import DeckDuel.Proofs.Causes
import DeckDuel.Proofs.Change
import DeckDuel.Proofs.CheckpointRoundTrip
import DeckDuel.Proofs.CodecLaws
import DeckDuel.Proofs.CodexRoundTrip
import DeckDuel.Proofs.Comparable
import DeckDuel.Proofs.ComposedModifiers
import DeckDuel.Proofs.Course
import DeckDuel.Proofs.Double
import DeckDuel.Proofs.Draws
import DeckDuel.Proofs.Engine
import DeckDuel.Proofs.EqualsRuns
import DeckDuel.Proofs.Exact
import DeckDuel.Proofs.FaithfulMemo
import DeckDuel.Proofs.Fitting
import DeckDuel.Proofs.FreshUids
import DeckDuel.Proofs.Grammar
import DeckDuel.Proofs.GrantedAbility
import DeckDuel.Proofs.HandKept
import DeckDuel.Proofs.HeldAbilities
import DeckDuel.Proofs.HeldStatuses
import DeckDuel.Proofs.Impartial
import DeckDuel.Proofs.Infixes
import DeckDuel.Proofs.Kinds
import DeckDuel.Proofs.Leads
import DeckDuel.Proofs.LoadedAgain
import DeckDuel.Proofs.Lockstep
import DeckDuel.Proofs.LostTurns
import DeckDuel.Proofs.LustOverflow
import DeckDuel.Proofs.MaximalRuns
import DeckDuel.Proofs.Mirror
import DeckDuel.Proofs.MirrorLockstep
import DeckDuel.Proofs.MirrorRun
import DeckDuel.Proofs.NearestWord
import DeckDuel.Proofs.NestedEntries
import DeckDuel.Proofs.Nesting
import DeckDuel.Proofs.OneAtATime
import DeckDuel.Proofs.OnePass
import DeckDuel.Proofs.Ordered
import DeckDuel.Proofs.OrderedCodex
import DeckDuel.Proofs.Outcome
import DeckDuel.Proofs.OwnMoments
import DeckDuel.Proofs.PartText
import DeckDuel.Proofs.Parts
import DeckDuel.Proofs.PathRuns
import DeckDuel.Proofs.Paths
import DeckDuel.Proofs.PlanOrder
import DeckDuel.Proofs.PrintedNumbers
import DeckDuel.Proofs.PrintedSelector
import DeckDuel.Proofs.Promotion
import DeckDuel.Proofs.Provenance
import DeckDuel.Proofs.Reading
import DeckDuel.Proofs.Reentrance
import DeckDuel.Proofs.Reflects
import DeckDuel.Proofs.Refuses
import DeckDuel.Proofs.Reload
import DeckDuel.Proofs.Rendering
import DeckDuel.Proofs.Resumed
import DeckDuel.Proofs.RewordedPaths
import DeckDuel.Proofs.Rewording
import DeckDuel.Proofs.Runner
import DeckDuel.Proofs.Samples
import DeckDuel.Proofs.Sandbox
import DeckDuel.Proofs.Scanning
import DeckDuel.Proofs.Selection
import DeckDuel.Proofs.SelectorText
import DeckDuel.Proofs.SessionLockstep
import DeckDuel.Proofs.SettledStats
import DeckDuel.Proofs.ShortestDecimals
import DeckDuel.Proofs.SkippedUnit
import DeckDuel.Proofs.SoundDocuments
import DeckDuel.Proofs.SoundSnapshots
import DeckDuel.Proofs.SpentNumbers
import DeckDuel.Proofs.Splitting
import DeckDuel.Proofs.StatAccount
import DeckDuel.Proofs.StatBounds
import DeckDuel.Proofs.StatusAccount
import DeckDuel.Proofs.StatusAddress
import DeckDuel.Proofs.Step
import DeckDuel.Proofs.StoredNumbers
import DeckDuel.Proofs.Substitution
import DeckDuel.Proofs.TenthGaps
import DeckDuel.Proofs.TenthWords
import DeckDuel.Proofs.ToldChanges
import DeckDuel.Proofs.TurnedDown
import DeckDuel.Proofs.UnitText
import DeckDuel.Proofs.UnnoticedMemo
import DeckDuel.Proofs.WrittenChain
import DeckDuel.Proofs.WrittenCodex
import DeckDuel.Proofs.WrittenRecords
import DeckDuel.Proofs.WrittenSnapshot
import DeckDuel.Proofs.WrittenTerms
import DeckDuel.Proofs.WrittenText
import DeckDuel.Proofs.ZeroSign
import DeckDuel.Random.Draw
import DeckDuel.Random.Fork
import DeckDuel.Random.Stream
import DeckDuel.Refusal
import DeckDuel.Report
import DeckDuel.Rules
import DeckDuel.Scalar
import DeckDuel.Scalar.Double
import DeckDuel.Scalar.Exact
import DeckDuel.Selector
import DeckDuel.Session
import DeckDuel.Side
import DeckDuel.Snapshot
import DeckDuel.Status.Codex
import DeckDuel.Status.Decay
import DeckDuel.Status.Definition
import DeckDuel.Status.Shelf
import DeckDuel.Text.Blank
import DeckDuel.Text.Word
import DeckDuel.Trigger
import DeckDuel.Variable.Path
import DeckDuel.Variable.Scope
