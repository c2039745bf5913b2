import LadyBook.Reasoning.Runs
import LadyBook.Reasoning.Records
import LadyBook.Reasoning.DocumentStore
import LadyBook.Reasoning.OrderedKeys
import LadyBook.Model.Document
import LadyBook.Model.Article
import LadyBook.Platform
import LadyBook.Controller.WritingAdd
import LadyBook.Controller.Feed
import LadyBook.Controller.ArticleView
import LadyBook.Controller.Device
import LadyBook.Controller.Effects
import LadyBook.System.Publishing
import LadyBook.System.Ownership
import LadyBook.System.Consistency
import LadyBook.System.Documents
import LadyBook.System.Outcomes
import LadyBook.System.Pictures
import LadyBook.System.Readers
import LadyBook.System.World
import LadyBook.System.Screens
import LadyBook.System.History
import LadyBook.Properties.Authorship
import LadyBook.Properties.Releases
import LadyBook.Properties.Pictures
import LadyBook.Properties.Taps
import LadyBook.Properties.Articles
import LadyBook.Properties.Feeds
import LadyBook.Properties.SignUp
import LadyBook.Reasoning.Progress
import LadyBook.System.Chains
import LadyBook.System.Settling
import LadyBook.Properties.Progress
import LadyBook.System.Writes
import LadyBook.System.Views
import LadyBook.Properties.Views
import LadyBook.System.Presented
import LadyBook.Properties.Screens
import LadyBook.Reasoning.Stacks
import LadyBook.System.Navigation
import LadyBook.Properties.Objects
import LadyBook.Properties.Crashes
import LadyBook.Firestore.Documents
import LadyBook.Reasoning.SortedScan
import LadyBook.Firestore.Mutations
import LadyBook.Firestore.MutationBatches
import LadyBook.Firestore.MutationQueue
import LadyBook.Firestore.MemoryMutationQueue
import LadyBook.Firestore.LocalDocuments
import LadyBook.Firestore.LocalStore
import LadyBook.Firestore.WriteStream
import LadyBook.Firestore.Client
import LadyBook.Firestore.Pipeline
import LadyBook.Reasoning.Simulation
import LadyBook.Firestore.Ledger
import LadyBook.Firestore.Simulation
import LadyBook.Firestore.Journal
import LadyBook.Firestore.Histories
import LadyBook.Properties.Delivery
