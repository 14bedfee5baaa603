import LineProtocol.Main
import LineProtocol.Project.Manifest
import LineProtocol.Proofs.Room
import LineProtocol.Proofs.Surfacing
import LineProtocol.Proofs.Timeouts
import LineProtocol.Proofs.Lines
import LineProtocol.Trades
import LineProtocol.Proofs.Resuming
import LineProtocol.Proofs.Leaving
import LineProtocol.Proofs.Characters
import LineProtocol.Proofs.Truncation
import LineProtocol.Proofs.Blocks
import LineProtocol.Proofs.Configuring
import LineProtocol.Proofs.Trading
import LineProtocol.Proofs.Offering
import LineProtocol.Proofs.Deadlines
import LineProtocol.Proofs.Refusals
import LineProtocol.Proofs.Literals
import LineProtocol.Proofs.Parameters
import LineProtocol.Proofs.Addresses
import LineProtocol.Proofs.Language
import LineProtocol.Proofs.Sequencing
import LineProtocol.Proofs.Instants
import LineProtocol.Proofs.Cleaning
import LineProtocol.Proofs.Manifest
import LineProtocol.Proofs.Commands
import LineProtocol.Proofs.Marks
import LineProtocol.Proofs.Wrapping
