import Reckoner.Main
import Reckoner.Proofs.Adjacency
import Reckoner.Proofs.DataFromJson
import Reckoner.Proofs.DescentBounds
import Reckoner.Proofs.IntegerFormulas
import Reckoner.Proofs.LookAhead
import Reckoner.Proofs.MoreData
import Reckoner.Proofs.NestingThreshold
import Reckoner.Proofs.Offences
import Reckoner.Proofs.PathWalk
import Reckoner.Proofs.PostOrder
import Reckoner.Proofs.PrintedForms
import Reckoner.Proofs.PrintedValue
import Reckoner.Proofs.PrunedData
import Reckoner.Proofs.RunJournal
import Reckoner.Proofs.Spacing
import Reckoner.Proofs.SpelledNumbers
import Reckoner.Proofs.StoredValues
import Reckoner.Proofs.SuitableData
