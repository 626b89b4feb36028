import CodeNav.Main
import CodeNav.Navigator.Session
import CodeNav.Proofs.Assignments
import CodeNav.Proofs.Delivery
import CodeNav.Proofs.Denial
import CodeNav.Proofs.EntryPoints
import CodeNav.Proofs.ExitStatus
import CodeNav.Proofs.ImportSegments
import CodeNav.Proofs.InternalCalls
import CodeNav.Proofs.JavaBindings
import CodeNav.Proofs.KindChoice
import CodeNav.Proofs.LeadingLines
import CodeNav.Proofs.LineEnds
import CodeNav.Proofs.LineNumbers
import CodeNav.Proofs.LinkedNames
import CodeNav.Proofs.LongestTokens
import CodeNav.Proofs.PlainContent
import CodeNav.Proofs.Receivers
import CodeNav.Proofs.Refining
import CodeNav.Proofs.RootSettings
import CodeNav.Proofs.ServiceAnswers
import CodeNav.Proofs.Siblings
import CodeNav.Proofs.SourceSets
import CodeNav.Proofs.TypeParameters
import CodeNav.Proofs.Validation
import CodeNav.Proofs.WebReplies
import CodeNav.Proofs.WordTokens
import CodeNav.Service
