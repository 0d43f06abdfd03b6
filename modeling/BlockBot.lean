import BlockBot.Main
import BlockBot.Source
import BlockBot.Call
import BlockBot.Proofs.Entries
import BlockBot.Proofs.Fields
import BlockBot.Proofs.Edges
import BlockBot.Proofs.Placement
import BlockBot.Proofs.Arrangement
import BlockBot.Proofs.Acyclic
import BlockBot.Proofs.Rejection
import BlockBot.Proofs.Agreement
import BlockBot.Proofs.Trees
import BlockBot.Proofs.Pruning
import BlockBot.Proofs.Flattening
import BlockBot.Proofs.InferredRoots
import BlockBot.Proofs.DepthLimit
import BlockBot.Proofs.Outline
import BlockBot.Proofs.Routing
import BlockBot.Proofs.Emission
import BlockBot.Proofs.Segmentation
import BlockBot.Proofs.SectionLayout
import BlockBot.Proofs.OneLine
import BlockBot.Proofs.TextLines
import BlockBot.Proofs.Registration
import BlockBot.Proofs.Steps
import BlockBot.Proofs.OtherOptions
import BlockBot.Proofs.NestingGuard
import BlockBot.Proofs.Rescaling
import BlockBot.Proofs.ShortestDecimal
import BlockBot.Proofs.NumberText
import BlockBot.Proofs.LiteralReading
import BlockBot.Proofs.ImportSection
import BlockBot.Proofs.Accepted
import BlockBot.Proofs.TextHoles
import BlockBot.Proofs.Confinement
import BlockBot.Proofs.Skipping
import BlockBot.Proofs.TypedReading
import BlockBot.Proofs.DirectReading
import BlockBot.Proofs.WrittenValues
import BlockBot.Proofs.WrittenDocuments
import BlockBot.Proofs.LaterBlocks
import BlockBot.Proofs.Fallbacks
import BlockBot.Proofs.RecordFields
import BlockBot.Proofs.RecordChanges
import BlockBot.Proofs.Spellings
import BlockBot.Proofs.Tags
import BlockBot.Proofs.Words
import BlockBot.Proofs.Recognition
import BlockBot.Proofs.BranchConditions
import BlockBot.Proofs.DocumentShapes
import BlockBot.Proofs.EventAliases
import BlockBot.Proofs.DrawnBlocks
import BlockBot.Proofs.SampleBots
import BlockBot.Proofs.Identifiers
import BlockBot.Proofs.Levels
import BlockBot.Proofs.Templates
import BlockBot.Proofs.Visits
