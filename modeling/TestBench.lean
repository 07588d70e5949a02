import TestBench.Main
import TestBench.Proofs.AcceptedSpellings
import TestBench.Proofs.AlikeStores
import TestBench.Proofs.BuiltReferences
import TestBench.Proofs.CompiledMeaning
import TestBench.Proofs.ExternalVerdicts
import TestBench.Proofs.GenuineStores
import TestBench.Proofs.ImageFraming
import TestBench.Proofs.LinkedClosures
import TestBench.Proofs.NeededImages
import TestBench.Proofs.NestingReached
import TestBench.Proofs.ReadPrograms
import TestBench.Proofs.RebuiltPlans
import TestBench.Proofs.ScratchTraces
import TestBench.Proofs.StoreEffect
import TestBench.Source.Outline
import TestBench.Proofs.ScannedReports
import TestBench.Proofs.KeptDetails
import TestBench.Proofs.FaultlessFiles
import TestBench.Proofs.Mentions
import TestBench.Proofs.LoweredForms
import TestBench.Proofs.ScopedUnits
import TestBench.Proofs.AlikeScopes
import TestBench.Proofs.ImageSurfaces
import TestBench.Proofs.FileOrder
import TestBench.Proofs.DepthLimits
import TestBench.Proofs.ReachedImages
import TestBench.Proofs.PersistedClosures
import TestBench.Proofs.ReferenceCycles
import TestBench.Proofs.PlacedDiagnostics
import TestBench.Proofs.FixtureStages
import TestBench.Proofs.RefusedNames
import TestBench.Proofs.ExactArithmetic
import TestBench.Proofs.LexedLines
import TestBench.Proofs.SpelledTokens
import TestBench.Proofs.FaithfulSpans
import TestBench.Proofs.ExactPositions
import TestBench.Proofs.DecoratedAttributes
import TestBench.Proofs.GrammarRules
import TestBench.Proofs.ReadingProgress
import TestBench.Proofs.EndingLoops
import TestBench.Proofs.KeptDepth
import TestBench.Proofs.IsolatedFrames
