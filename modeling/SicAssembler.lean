import SicAssembler.Assembly.Session
import SicAssembler.Main
import SicAssembler.Proofs.Boundaries
import SicAssembler.Proofs.CodeWidth
import SicAssembler.Proofs.Conservation
import SicAssembler.Proofs.Decoding
import SicAssembler.Proofs.FailedRuns
import SicAssembler.Proofs.FileRuns
import SicAssembler.Proofs.Histories
import SicAssembler.Proofs.KeptInputs
import SicAssembler.Proofs.Labels
import SicAssembler.Proofs.Literals
import SicAssembler.Proofs.Loading
import SicAssembler.Proofs.Locations
import SicAssembler.Proofs.OpcodeLoading
import SicAssembler.Proofs.PackerRuns
import SicAssembler.Proofs.Reassembly
import SicAssembler.Proofs.Relocation
import SicAssembler.Proofs.Streaming
import SicAssembler.Proofs.Strictness
import SicAssembler.Proofs.Warnings
import SicAssembler.Proofs.Words
